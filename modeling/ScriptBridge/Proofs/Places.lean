import ScriptBridge.Proofs.Release

/-!
# ScriptBridge.Proofs.Places

Moving values in and out of slots.  A value that is taken out of a slot is held by whoever took it;
one that is put into a slot is held by the slot; and one that was there before is dropped, or held
by the call that borrows the slot.

Main facts:

* `keeps_takeSlot`, `keeps_storeSlot` — nothing is lost on the way;
* `keeps_giveBack` — a call that ends drops the value that was replaced.
-/

namespace ScriptBridge.Host.World

variable {w : World} {μ : SessionId → Session.Memory} {H T pre err : Multiset Holding}

/-! ## Changing a slot -/

theorem fits_modifyFrame {as : List Activity} (change : Frame → Frame) (fits : ∀ a ∈ as, a.Fits) :
    ∀ a ∈ modifyFrame change as, a.Fits := by
  induction as with
  | nil => simp [modifyFrame]
  | cons a as ih =>
    have others : ∀ b ∈ as, b.Fits := fun b hb => fits b (List.mem_cons_of_mem a hb)
    have mine : a.Fits := fits a List.mem_cons_self
    cases a with
    | program frame rest => exact List.forall_mem_cons.mpr ⟨trivial, others⟩
    | _ => exact List.forall_mem_cons.mpr ⟨mine, ih others⟩

theorem ownersOf_captured (t : Std.TreeMap CallableId Callable) (id : CallableId)
    (change : Slots → Slots) :
    ownersOf (t.modify id fun c => { c with captured := change c.captured }) = ownersOf t := by
  cases h : t[id]? with
  | some c => rw [ownersOf_modify _ h, ownersOf_erase h]
  | none =>
    rw [ownersOf, ownersOf, entries_congr fun k => ?_]
    by_cases here : k = id
    · subst here
      rw [getElem?_modify_self, h, Option.map_none]
    · rw [getElem?_modify_of_ne here]

/-- A slot that changes is none of the business of sessions, nor of the owners of callables. -/
theorem Balanced.setSlotAt (hw : w.Balanced μ T) (place : Loan) (slot : Option Slot) :
    (w.setSlotAt place slot).Balanced μ T := by
  cases place with
  | ofWorld name => exact { hw with }
  | ofCallable id name =>
    exact { hw with
      worth := by
        have same := ownersOf_captured w.callables id fun t => putSlot t name slot
        rw [owned]
        exact hw.worth.trans (by rw [owned, ← same]; rfl)
      payable := fun f hf => by
        have same := ownersOf_captured w.callables id fun t => putSlot t name slot
        have mine := hw.payable f hf
        rw [owned, ← same] at mine
        exact mine
      fresh := fun f hf => hw.fresh f (keys_modify _ _ _ hf) }
  | ofFrame name => exact { hw with fits := fits_modifyFrame _ hw.fits }

/-- What was in a slot is held by whoever changes it. -/
theorem keepsAt_setSlotAt {place : Loan} (here : w.HasPlace place) (slot : Option Slot) :
    KeepsAt Books w (someHoldings slot) (modify fun w => w.setSlotAt place slot : Act Unit)
      fun _ => someHoldings (w.slotAt place) := by
  rintro μ H ⟨hw, owed⟩
  have total : (w.setSlotAt place slot).holdings + (someHoldings (w.slotAt place) + H)
      = w.holdings + (someHoldings slot + H) := by
    rw [← add_assoc, holdings_setSlotAt here, add_assoc]
  change Books μ (someHoldings (w.slotAt place) + H) (w.setSlotAt place slot)
  rw [Books, total]
  exact ⟨hw.setSlotAt place slot, owed⟩

/-- A value that a call is to keep is held by that call. -/
theorem keepsAt_entrust {place : Loan} {v : Value} {as : List Activity}
    (h : entrust place v w.activities = some as) :
    KeepsAt Books w v.holdings (modify fun w => { w with activities := as } : Act Unit)
      fun _ => 0 := by
  intro μ H hw
  have fits := (entrusted h hw.1.fits).2
  have held := (entrusted h hw.1.fits).1
  have total : ({ w with activities := as } : World).holdings + (0 + H)
      = w.holdings + (v.holdings + H) := by
    rw [holdings, holdings, held]
    ac_rfl
  change Books μ (0 + H) { w with activities := as }
  rw [Books, total]
  exact ⟨{ hw.1 with fits := fits }, hw.2⟩

/-! ## Slots by name -/

/-- A slot that is to be filled is, or there is a failure. -/
theorem keepsAt_filledSlot {α : Type} {name : String} {f : Loan × Slot → Try α}
    {ok : α → Multiset Holding}
    (found : ∀ place slot, w.slotAt place = some slot →
      KeepsAt Books w pre (f (place, slot)).run (onResult ok err))
    (missing : pre = err) :
    KeepsAt Books w pre (filledSlot name >>= f).run (onResult ok err) := by
  have failed : KeepsAt Books w pre
      ((throw (Mishap.misuse .emptySlot) : Try (Loan × Slot)) >>= f).run (onResult ok err) :=
    KeepsAt.throw _ missing
  intro μ H hw
  rw [ExceptT.run_bind, stateM_run_bind, filledSlot, try_get_bind]
  cases hl : w.locate name with
  | none => exact failed μ H hw
  | some place =>
    simp only
    cases hs : w.slotAt place with
    | none => exact failed μ H hw
    | some slot => exact found place slot hs μ H hw

/-- A value that is taken out of a slot is held by whoever took it. -/
theorem keeps_takeSlot (name : String) :
    Keeps Books 0 (takeSlot name).run (onResult Value.holdings 0) := by
  intro w
  refine keepsAt_filledSlot (fun place slot hs => ?_) rfl
  have taken : KeepsAt Books w 0 (modify fun w => w.setSlotAt place none : Act Unit)
      fun _ => slot.value.holdings :=
    (keepsAt_setSlotAt (hasPlace_of_slotAt hs) none).congr rfl fun _ => by
      rw [hs, someHoldings_some]
  by_cases busy : slot.borrows ≠ 0
  · simp only [busy, if_true, not_false_eq_true, ne_eq]
    exact KeepsAt.throw _ rfl
  · simp only [busy, if_false]
    exact (taken.lift 0).tryBind fun _ _ => KeepsAt.tryPure _ rfl

/-- A value that is put into a slot is held there, and none is lost. -/
theorem keeps_storeSlot (name : String) (v : Value) :
    Keeps Books v.holdings (storeSlot name v).run (onResult (fun _ => 0) 0) := by
  intro w
  refine KeepsAt.tryGet ?_
  cases hl : w.locate name with
  | none =>
    simp only
    exact Keeps.tryBind ((keeps_dropValue v).lift 0) (fun _ => Keeps.throw _ rfl) w
  | some place =>
    have put := keepsAt_setSlotAt (hasPlace_of_locate hl) (some ⟨v, 0⟩)
    simp only
    cases hs : w.slotAt place with
    | none =>
      rw [hs] at put
      exact put.lift 0
    | some old =>
      rw [hs] at put
      simp only
      refine (put.lift 0).tryBind fun _ _ => ?_
      by_cases free : old.borrows = 0
      · simp only [free, if_true]
        exact (keeps_dropValue old.value).lift 0 _
      · simp only [free, if_false]
        refine KeepsAt.tryGet ?_
        split
        · rename_i as h
          exact (keepsAt_entrust h).lift 0
        · exact (keeps_dropValue old.value).lift 0 _

theorem keeps_keepOrDrop (into : Option String) (v : Value) :
    Keeps Books v.holdings (keepOrDrop into v).run (onResult (fun _ => 0) 0) := by
  cases into with
  | some name => exact keeps_storeSlot name v
  | none => exact (keeps_dropValue v).lift 0

theorem keepsAt_unborrow (place : Loan) :
    KeepsAt Books w 0 (modify fun w => w.unborrow place : Act Unit) fun _ => 0 := by
  intro μ H hw
  change Books μ (0 + H) (w.unborrow place)
  rw [unborrow]
  split
  · rename_i slot hs
    have same := holdings_setSlotAt (hasPlace_of_slotAt hs)
      (some { slot with borrows := slot.borrows - 1 })
    rw [hs] at same
    rw [Books, add_right_cancel same]
    exact ⟨hw.1.setSlotAt _ _, hw.2⟩
  · exact hw

/-- A call that ends drops the value that was replaced in the slot it had borrowed. -/
theorem keeps_giveBack (c : Calling) :
    Keeps Books (valueHoldings c.replaced.toList) (giveBack c) fun _ => 0 := by
  intro w
  rw [giveBack]
  cases c.replaced with
  | some v => exact ((keeps_dropValue v).congr (by simp) fun _ => rfl) w
  | none => exact keepsAt_unborrow c.loan

end ScriptBridge.Host.World

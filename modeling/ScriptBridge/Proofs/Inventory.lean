import ScriptBridge.Host.Run
import ScriptBridge.Proofs.Operations

/-!
# ScriptBridge.Proofs.Inventory

What the world of a host program holds: the values in its slots, the callables that are defined
under names, the values that callables captured, and what the activities in progress need.

Main facts:

* `slotHoldings_insert`, `slotHoldings_erase` — a slot that is filled or emptied;
* `World.holdings_setSlotAt` — the same for a slot anywhere;
* `World.entrusted` — a replaced value is held by the call that borrows its slot.
-/

namespace ScriptBridge.Host

/-! ## Slots -/

/-- What slots hold. -/
def slotHoldings (t : Slots) : Multiset Holding :=
  ((entries t).map fun e => e.2.value.holdings).sum

/-- What a slot holds, if there is one. -/
def someHoldings (slot : Option Slot) : Multiset Holding := slot.elim 0 fun s => s.value.holdings

@[simp] theorem someHoldings_none : someHoldings none = 0 := rfl

@[simp] theorem someHoldings_some (s : Slot) : someHoldings (some s) = s.value.holdings := rfl

@[simp] theorem slotHoldings_empty : slotHoldings ∅ = 0 := by simp [slotHoldings]

/-- What a filled slot holds comes off when the slot is emptied. -/
theorem slotHoldings_erase (t : Slots) (name : String) :
    slotHoldings t = slotHoldings (t.erase name) + someHoldings t[name]? := by
  cases h : t[name]? with
  | none => rw [slotHoldings, ← entries_erase_of_none h, someHoldings_none, add_zero, slotHoldings]
  | some s =>
    rw [slotHoldings, entries_erase h, Multiset.map_cons, Multiset.sum_cons, someHoldings_some,
      slotHoldings, add_comm]

/-- What is put into a slot takes the place of what was there. -/
theorem slotHoldings_insert (t : Slots) (name : String) (s : Slot) :
    slotHoldings (t.insert name s) + someHoldings t[name]?
      = slotHoldings t + s.value.holdings := by
  rw [slotHoldings_erase t name, slotHoldings, entries_replace, Multiset.map_cons,
    Multiset.sum_cons, slotHoldings]
  ac_rfl

/-- The values in slots hold what the slots hold. -/
theorem valueHoldings_slots (t : Slots) :
    valueHoldings (t.toList.map fun e => e.2.value) = slotHoldings t := by
  rw [valueHoldings, slotHoldings, entries, List.map_map, Multiset.map_coe, Multiset.sum_coe]
  rfl

/-! ## Activities -/

/-- What a call step in progress holds. -/
def Calling.holdings (c : Calling) : Multiset Holding :=
  valueHoldings c.replaced.toList + valueHoldings (c.args.map (·.1))

def Waiting.holdings : Waiting → Multiset Holding
  | .calling id _ outs c => outHoldings id outs (c.args.map (·.1)) + c.holdings
  | .callingHost c => c.holdings
  | .executing .. | .closing _ => 0

/-- The values that are delivered. -/
def Errand.values : Errand → List Value
  | .call _ _ _ c => c.args.map (·.1)
  | .assign _ _ v => [v]
  | .results _ vs => vs

/-- What an errand in a session holds apart from the transfers. -/
def Errand.holdings (id : SessionId) : Errand → Multiset Holding
  | .call _ _ _ c => c.holdings
  | .assign _ _ v => v.holdings
  | .results previous vs => {.entered id previous} + valueHoldings vs

/-- How many values are still to be put on the host's frame. -/
def Delivery.missing (d : Delivery) : Nat := d.left.length + d.pin.toList.length

/-- The value that is put on the host's frame next. -/
def Delivery.next? (d : Delivery) (errand : Errand) : Option Value :=
  errand.values[d.outbound.length - d.missing]?

/-- What a delivery holds: its transfers, and the pin of a host function that is made next. -/
def Delivery.holdings (d : Delivery) (errand : Errand) : Multiset Holding :=
  (d.pin.elim 0 fun pin => {.pin d.session pin (d.next? errand)})
    + outHoldings d.session d.outbound errand.values + errand.holdings d.session

namespace Activity

def holdings : Activity → Multiset Holding
  | .program frame _ => frame.elim 0 fun f => slotHoldings f.slots
  | .step _ waiting => waiting.holdings
  | .delivering d errand => d.holdings errand
  | .serving id previous callable => {.entered id previous} + {.callable callable}
  | .sweeping _ | .teardown => 0

/-- Whether each value of a transfer in progress has its own cell, or lends one. -/
def Fits : Activity → Prop
  | .step _ (.calling id _ outs c) =>
    List.Forall₂ (Session.Carries id) outs (c.args.map (·.1))
  | .delivering d errand =>
    List.Forall₂ (Session.Carries d.session) d.outbound errand.values ∧ d.left <:+ d.outbound
  | _ => True

end Activity

/-- What activities hold. -/
def activityHoldings (as : List Activity) : Multiset Holding := (as.map Activity.holdings).sum

@[simp] theorem activityHoldings_nil : activityHoldings [] = 0 := rfl

@[simp] theorem activityHoldings_cons (a : Activity) (as : List Activity) :
    activityHoldings (a :: as) = a.holdings + activityHoldings as := by simp [activityHoldings]

/-- What the callables that are defined under names are owned as. -/
def definedHoldings (t : Std.TreeMap String CallableId) : Multiset Holding :=
  (entries t).map fun e => .callable e.2

/-- What the values that callables captured hold. -/
def capturedHoldings (t : Std.TreeMap CallableId Callable) : Multiset Holding :=
  ((entries t).map fun e => slotHoldings e.2.captured).sum

theorem capturedHoldings_erase {t : Std.TreeMap CallableId Callable} {id : CallableId}
    {c : Callable} (h : t[id]? = some c) :
    capturedHoldings t = slotHoldings c.captured + capturedHoldings (t.erase id) := by
  rw [capturedHoldings, entries_erase h, Multiset.map_cons, Multiset.sum_cons, capturedHoldings]

theorem capturedHoldings_insert {t : Std.TreeMap CallableId Callable} {id : CallableId}
    (c : Callable) (h : t[id]? = none) :
    capturedHoldings (t.insert id c) = slotHoldings c.captured + capturedHoldings t := by
  rw [capturedHoldings, entries_insert h, Multiset.map_cons, Multiset.sum_cons, capturedHoldings]

theorem capturedHoldings_replace {t : Std.TreeMap CallableId Callable} {id : CallableId}
    {c d : Callable} (h : t[id]? = some c) (same : d.captured = c.captured) :
    capturedHoldings (t.insert id d) = capturedHoldings t := by
  rw [capturedHoldings_erase h, capturedHoldings, entries_replace, Multiset.map_cons,
    Multiset.sum_cons, same, capturedHoldings]

theorem capturedHoldings_modify {t : Std.TreeMap CallableId Callable} {id : CallableId}
    {c : Callable} (change : Callable → Callable) (h : t[id]? = some c) :
    capturedHoldings (t.modify id change) + slotHoldings c.captured
      = capturedHoldings t + slotHoldings (change c).captured := by
  rw [capturedHoldings_erase h, capturedHoldings, entries_modify change h, Multiset.map_cons,
    Multiset.sum_cons, capturedHoldings]
  ac_rfl

theorem definedHoldings_erase (t : Std.TreeMap String CallableId) (name : String) :
    definedHoldings t = owners t[name]?.toList + definedHoldings (t.erase name) := by
  cases h : t[name]? with
  | none => simp [definedHoldings, entries_erase_of_none h]
  | some id => simp [definedHoldings, entries_erase h]

theorem definedHoldings_insert (t : Std.TreeMap String CallableId) (name : String)
    (id : CallableId) :
    definedHoldings (t.insert name id) + owners t[name]?.toList
      = {.callable id} + definedHoldings t := by
  rw [definedHoldings_erase t name, definedHoldings, entries_replace, Multiset.map_cons,
    ← Multiset.singleton_add, definedHoldings]
  ac_rfl

namespace World

/-- What the world holds. -/
def holdings (w : World) : Multiset Holding :=
  slotHoldings w.slots + definedHoldings w.defined + capturedHoldings w.callables
    + activityHoldings w.activities

/-! ## Slots anywhere -/

/-- The slots of the frame of the innermost program. -/
theorem holdings_modifyFrame {as : List Activity} {f : Frame} (change : Frame → Frame)
    (h : (as.findSome? fun
      | .program frame _ => some frame
      | _ => none).join = some f) :
    activityHoldings (modifyFrame change as) + slotHoldings f.slots
      = activityHoldings as + slotHoldings (change f).slots := by
  induction as with
  | nil => cases h
  | cons a as ih =>
    cases a with
    | program frame rest =>
      cases frame with
      | none => cases h
      | some g =>
        obtain rfl := Option.some.inj h
        simp only [modifyFrame, activityHoldings_cons, Activity.holdings, Option.map_some,
          Option.elim_some]
        ac_rfl
    | _ =>
      have rest := ih h
      rw [modifyFrame, activityHoldings_cons, activityHoldings_cons, add_assoc, rest, add_assoc]
      simp

/-- A place that can hold a value. -/
def HasPlace (w : World) : Loan → Prop
  | .ofWorld _ => True
  | .ofCallable id _ => ∃ c, w.callables[id]? = some c
  | .ofFrame _ => ∃ f, w.frame? = some f

theorem hasPlace_of_slotAt {w : World} {place : Loan} {s : Slot} (h : w.slotAt place = some s) :
    w.HasPlace place := by
  cases place with
  | ofWorld name => trivial
  | ofCallable id name =>
    obtain ⟨c, hc, -⟩ := Option.bind_eq_some_iff.mp h
    exact ⟨c, hc⟩
  | ofFrame name =>
    obtain ⟨f, hf, -⟩ := Option.bind_eq_some_iff.mp h
    exact ⟨f, hf⟩

theorem hasPlace_of_locate {w : World} {name : String} {place : Loan}
    (h : w.locate name = some place) : w.HasPlace place := by
  rw [locate] at h
  split at h
  · obtain ⟨f, hf, rfl⟩ := Option.map_eq_some_iff.mp h
    exact ⟨f, hf⟩
  · obtain ⟨f, hf, rest⟩ := Option.bind_eq_some_iff.mp h
    split at rest
    · rename_i present
      obtain rfl := Option.some.inj rest
      exact ⟨w.callables[f.callable], Std.TreeMap.getElem?_eq_some_getElem present⟩
    · cases rest
  · obtain rfl := Option.some.inj h
    trivial

theorem slotHoldings_putSlot (t : Slots) (name : String) (slot : Option Slot) :
    slotHoldings (putSlot t name slot) + someHoldings t[name]?
      = slotHoldings t + someHoldings slot := by
  cases slot with
  | some s => exact slotHoldings_insert t name s
  | none => rw [someHoldings_none, add_zero, putSlot, ← slotHoldings_erase]

/-- A slot that changes takes what it held away, and holds something else. -/
theorem holdings_setSlotAt {w : World} {place : Loan} (h : w.HasPlace place)
    (slot : Option Slot) :
    (w.setSlotAt place slot).holdings + someHoldings (w.slotAt place)
      = w.holdings + someHoldings slot := by
  cases place with
  | ofWorld name =>
    have here := slotHoldings_putSlot w.slots name slot
    simp only [holdings, setSlotAt, slotAt]
    calc
      _ = (slotHoldings (putSlot w.slots name slot) + someHoldings w.slots[name]?)
          + (definedHoldings w.defined + capturedHoldings w.callables
            + activityHoldings w.activities) := by ac_rfl
      _ = _ := by
        rw [here]
        ac_rfl
  | ofCallable id name =>
    obtain ⟨c, hc⟩ := h
    have here := slotHoldings_putSlot c.captured name slot
    have whole := capturedHoldings_modify (fun c => { c with
      captured := putSlot c.captured name slot }) hc
    dsimp only at whole
    simp only [holdings, setSlotAt, slotAt, hc, Option.bind_some]
    refine add_right_cancel (b := slotHoldings c.captured) ?_
    calc
      _ = (capturedHoldings (w.callables.modify id fun c => { c with
              captured := putSlot c.captured name slot }) + slotHoldings c.captured)
          + (slotHoldings w.slots + definedHoldings w.defined + activityHoldings w.activities
            + someHoldings c.captured[name]?) := by ac_rfl
      _ = (slotHoldings (putSlot c.captured name slot) + someHoldings c.captured[name]?)
          + (slotHoldings w.slots + definedHoldings w.defined + capturedHoldings w.callables
            + activityHoldings w.activities) := by
        rw [whole]
        ac_rfl
      _ = _ := by
        rw [here]
        ac_rfl
  | ofFrame name =>
    obtain ⟨f, hf⟩ := h
    have here := slotHoldings_putSlot f.slots name slot
    have whole := holdings_modifyFrame (fun f => { f with
      slots := putSlot f.slots name slot }) hf
    dsimp only at whole
    simp only [holdings, setSlotAt, slotAt, hf, Option.bind_some]
    refine add_right_cancel (b := slotHoldings f.slots) ?_
    calc
      _ = (activityHoldings (modifyFrame (fun f => { f with
              slots := putSlot f.slots name slot }) w.activities) + slotHoldings f.slots)
          + (slotHoldings w.slots + definedHoldings w.defined + capturedHoldings w.callables
            + someHoldings f.slots[name]?) := by ac_rfl
      _ = (slotHoldings (putSlot f.slots name slot) + someHoldings f.slots[name]?)
          + (slotHoldings w.slots + definedHoldings w.defined + capturedHoldings w.callables
            + activityHoldings w.activities) := by
        rw [whole]
        ac_rfl
      _ = _ := by
        rw [here]
        ac_rfl

/-! ## Borrowed slots -/

theorem holdings_withCalling {a : Activity} {c d : Calling} {v : Value}
    (h : a.calling? = some c) (empty : c.replaced = none) (hd : d = { c with replaced := some v }) :
    (a.withCalling d).holdings = a.holdings + v.holdings := by
  subst hd
  cases a with
  | step s waiting =>
    cases waiting with
    | calling id base outs c' =>
      obtain rfl := Option.some.inj h
      simp only [Activity.withCalling, Activity.holdings, Waiting.holdings, Calling.holdings, empty,
        Option.toList, valueHoldings_cons, valueHoldings_nil, add_zero, zero_add]
      ac_rfl
    | callingHost c' =>
      obtain rfl := Option.some.inj h
      simp only [Activity.withCalling, Activity.holdings, Waiting.holdings, Calling.holdings, empty,
        Option.toList, valueHoldings_cons, valueHoldings_nil, add_zero, zero_add]
      ac_rfl
    | _ => cases h
  | delivering d errand =>
    cases errand with
    | call s base f c' =>
      obtain rfl := Option.some.inj h
      simp only [Activity.withCalling, Activity.holdings, Delivery.holdings, Errand.holdings,
        Errand.values, Calling.holdings, empty, Option.toList, valueHoldings_cons,
        valueHoldings_nil, add_zero, zero_add]
      ac_rfl
    | _ => cases h
  | _ => cases h

theorem fits_withCalling {a : Activity} {c d : Calling} (h : a.calling? = some c)
    (same : d.args = c.args) (fits : a.Fits) : (a.withCalling d).Fits := by
  cases a with
  | step s waiting =>
    cases waiting with
    | calling id base outs c' =>
      obtain rfl := Option.some.inj h
      simpa only [Activity.withCalling, Activity.Fits, same] using fits
    | _ => exact fits
  | delivering d errand =>
    cases errand with
    | call s base f c' =>
      obtain rfl := Option.some.inj h
      simpa only [Activity.withCalling, Activity.Fits, Errand.values, same] using fits
    | _ => exact fits
  | _ => exact fits

/-- A replaced value is held by the call that borrows its slot. -/
theorem entrusted {place : Loan} {v : Value} {as bs : List Activity}
    (h : entrust place v as = some bs) (fits : ∀ a ∈ as, a.Fits) :
    activityHoldings bs = activityHoldings as + v.holdings ∧ ∀ b ∈ bs, b.Fits := by
  induction as generalizing bs with
  | nil => cases h
  | cons a as ih =>
    rw [entrust] at h
    have others : ∀ b ∈ as, b.Fits := fun b hb => fits b (List.mem_cons_of_mem a hb)
    have mine : a.Fits := fits a List.mem_cons_self
    cases inner : entrust place v as with
    | some rest =>
      rw [inner] at h
      obtain rfl := Option.some.inj h
      obtain ⟨held, fit⟩ := ih inner others
      refine ⟨?_, List.forall_mem_cons.mpr ⟨mine, fit⟩⟩
      rw [activityHoldings_cons, held, activityHoldings_cons, add_assoc]
    | none =>
      simp only [inner] at h
      split at h
      · rename_i borrowed
        obtain ⟨c, hc, rfl⟩ := Option.map_eq_some_iff.mp h
        have empty : c.replaced = none := by
          simp only [Activity.borrows, hc, Bool.and_eq_true, Option.isNone_iff_eq_none] at borrowed
          exact borrowed.2
        refine ⟨?_, List.forall_mem_cons.mpr ⟨fits_withCalling hc rfl mine, others⟩⟩
        rw [activityHoldings_cons, holdings_withCalling hc empty rfl, activityHoldings_cons]
        ac_rfl
      · cases h

end World

end ScriptBridge.Host

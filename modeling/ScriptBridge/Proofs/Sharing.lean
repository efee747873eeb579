import ScriptBridge.Proofs.Twins

/-!
# ScriptBridge.Proofs.Sharing

The steps of a side, up to where a runtime is called.  A step that keeps to a side finds the same in the
slots of that side, makes the same values and stores them in the same places, in all and in our share.

Main facts:

* `Turn.tries_filledSlot`, `Turn.tries_takeSlot`, `Turn.tries_storeSlot` — slots;
* `Turn.tries_value`, `Turn.tries_items` — values and lists.
-/

namespace ScriptBridge.Host

open scoped CoreInstances

namespace Turn

open World

variable {α : Type} {T : Turn} {τ τ' : Sides} {w v : World} {id : SessionId} {body : Option Bool}
  {lent lent' : String → Bool} {place : Loan} {name : String}

/-- What is in progress is that of two sides. -/
def Over (T : Turn) (head : Head) (lent : String → Bool) : Scene :=
  fun τ wa va _ => Stacks T.ours τ head lent wa va

/-- A step of a program on top is taken; the slots of its frame are lent as said. -/
abbrev At (T : Turn) (body : Option Bool) (lent : String → Bool) : Scene := T.Over (.body body) lent

/-- Nothing is lent. -/
def unlent (_ : String) : Bool := false

/-! ## Slots -/

/-- The frame of the program on top is one of the side whose body it is. -/
theorem frame_of (h : T.Holds (T.At body lent) τ w v) {f : Frame} (hf : w.frame? = some f) :
    ∃ b, body = some b ∧ τ.mine b f.callable ∧ τ.OwnsSlots b f.slots
      ∧ ∀ (n : String) (s : Slot), f.slots[n]? = some s → s.borrows ≤ (lent n).toNat := by
  have scene := h.2
  rw [frame?] at hf
  revert scene hf
  generalize w.activities = wa
  generalize v.activities = va
  intro hf scene
  cases scene with
  | base => cases hf
  | body side _ slots borrows _ =>
    cases hf
    exact ⟨_, rfl, side, slots, borrows⟩

/-- In a body of ours, the frame is the same in our share. -/
theorem frame_ours (h : T.Holds (T.At body lent) τ w v) (ours : T.side = true)
    (mine : body ≠ some !T.side) :
    v.frame? = w.frame? := by
  have scene := h.2
  rw [frame?, frame?]
  revert scene
  generalize w.activities = wa
  generalize v.activities = va
  intro scene
  cases scene with
  | base => rfl
  | @body b =>
    cases b with
    | true => rfl
    | false => rw [ours] at mine; exact absurd rfl mine

theorem eq_of_ne {b : Bool} (mine : body ≠ some !T.side) (h : body = some b) : body = some T.side := by
  cases b <;> cases hs : T.side <;> simp_all

/-- What a name stands for, and whose slot it is then. -/
theorem slot_cases (ours : String → Bool) (body : Option Bool) (b : Bool) (name : String) :
    ((∀ w : World, w.locate name = w.frame?.map fun _ => .ofFrame name)
      ∧ slotKept ours body b name = (body != some !b))
    ∨ ((∀ w : World, w.locate name = w.frame?.bind fun f =>
        if w.callables.contains f.callable then some (.ofCallable f.callable name) else none)
      ∧ slotKept ours body b name = (body != some !b))
    ∨ (∀ w : World, w.locate name = some (.ofWorld name))
      ∧ slotKept ours body b name = (ours name == b) := by
  simp only [locate, slotKept]
  cases name.toList with
  | nil => exact .inr (.inr ⟨fun _ => rfl, rfl⟩)
  | cons c cs =>
    by_cases dollar : c = '$'
    · subst dollar
      exact .inl ⟨fun _ => rfl, rfl⟩
    · by_cases caret : c = '^'
      · subst caret
        exact .inr (.inl ⟨fun _ => rfl, rfl⟩)
      · exact .inr (.inr ⟨fun _ => by simp [dollar, caret], by simp [dollar, caret]⟩)

/-- A slot of a side is at the same place. -/
theorem locate_ours (h : T.Holds (T.At body lent) τ w v)
    (kept : slotKept T.ours body T.side name = true)
    (ours : T.side = true) : v.locate name = w.locate name := by
  obtain ⟨locate, keeps⟩ | ⟨locate, keeps⟩ | ⟨locate, -⟩ := slot_cases T.ours body T.side name
  · rw [locate, locate, frame_ours h ours (by simpa [keeps] using kept)]
  · rw [locate, locate, frame_ours h ours (by simpa [keeps] using kept)]
    cases hf : w.frame? with
    | none => rfl
    | some f =>
      obtain ⟨b, hb, mine, -⟩ := frame_of h hf
      obtain rfl := Option.some.inj (hb.symm.trans (eq_of_ne (by simpa [keeps] using kept) hb))
      rw [Option.bind_some, Option.bind_some, contains_eq_isSome, contains_eq_isSome,
        h.1.callable_ours ours mine]
  · rw [locate, locate]

theorem locate_of (h : T.Holds (T.At body lent) τ w v) (kept : slotKept T.ours body T.side name = true)
    (there : w.locate name = some place) : place.Of T.ours τ body T.side := by
  obtain ⟨locate, keeps⟩ | ⟨locate, keeps⟩ | ⟨locate, keeps⟩ := slot_cases T.ours body T.side name
  · rw [locate] at there
    obtain ⟨f, hf, rfl⟩ := Option.map_eq_some_iff.mp there
    obtain ⟨b, hb, -⟩ := frame_of h hf
    exact eq_of_ne (by simpa [keeps] using kept) hb
  · rw [locate] at there
    obtain ⟨f, hf, there⟩ := Option.bind_eq_some_iff.mp there
    obtain ⟨b, hb, mine, -⟩ := frame_of h hf
    obtain rfl := Option.some.inj (hb.symm.trans (eq_of_ne (by simpa [keeps] using kept) hb))
    split at there
    · cases there
      exact mine
    · cases there
  · rw [locate] at there
    cases there
    rw [keeps] at kept
    exact eq_of_beq kept

/-- A place of a side has the same in it. -/
theorem slotAt_ours (h : T.Holds (T.At body lent) τ w v) (mine : place.Of T.ours τ body T.side)
    (ours : T.side = true) : v.slotAt place = w.slotAt place := by
  cases place with
  | ofWorld name => exact h.1.slots.ours (congrArg some (mine.trans ours))
  | ofCallable f name => rw [slotAt, slotAt, h.1.callable_ours ours mine]
  | ofFrame name =>
    have same := frame_ours h ours (by rw [show body = some T.side from mine]; cases T.side <;> simp)
    rw [slotAt, slotAt, same]

theorem slotAt_of (h : T.Holds (T.At body lent) τ w v) (mine : place.Of T.ours τ body T.side) {s : Slot}
    (there : w.slotAt place = some s) :
    τ.Owns T.side s.value ∧ ∀ n, place = .ofFrame n → s.borrows ≤ (lent n).toNat := by
  cases place with
  | ofWorld name =>
    refine ⟨h.1.slots.holds there (congrArg some mine), fun n frame => by cases frame⟩
  | ofCallable f name =>
    obtain ⟨c, hc, there⟩ := Option.bind_eq_some_iff.mp there
    exact ⟨(h.1.callables.holds hc mine).captured _ _ there, fun n frame => by cases frame⟩
  | ofFrame name =>
    obtain ⟨f, hf, there⟩ := Option.bind_eq_some_iff.mp there
    obtain ⟨b, hb, -, slots, borrows⟩ := frame_of h hf
    obtain rfl := Option.some.inj (hb.symm.trans mine)
    exact ⟨slots _ _ there, fun n frame => by cases frame; exact borrows _ _ there⟩

theorem split_putSlot {t t' : Slots} {slot : Option Slot}
    (h : Split (fun n => some (T.ours n)) (fun b _ s => τ.Owns b s.value) t t')
    (mine : T.ours name = T.side)
    (own : ∀ s, slot = some s → τ.Owns T.side s.value) :
    Split (fun n => some (T.ours n)) (fun b _ s => τ.Owns b s.value) (putSlot t name slot)
      (if T.side = true then putSlot t' name slot else t') := by
  cases slot with
  | some s => exact h.insert (congrArg some mine) (own s rfl)
  | none => exact h.erase (congrArg some mine)

theorem putSlot_borrows {t : Slots} {slot : Option Slot}
    (before : ∀ (n : String) (s : Slot), t[n]? = some s → s.borrows ≤ (lent n).toNat)
    (here : ∀ s, slot = some s → s.borrows ≤ (lent' name).toNat)
    (others : ∀ n, n ≠ name → lent n = true → lent' n = true) (n : String) (s : Slot)
    (hs : (putSlot t name slot)[n]? = some s) : s.borrows ≤ (lent' n).toNat := by
  by_cases same : n = name
  · subst same
    cases slot with
    | some slot =>
      rw [putSlot, Std.TreeMap.getElem?_insert_self] at hs
      exact Option.some.inj hs ▸ here slot rfl
    | none =>
      rw [putSlot, getElem?_erase_self] at hs
      cases hs
  · have there : t[n]? = some s := by
      cases slot with
      | some slot => rwa [putSlot, getElem?_insert_of_ne same] at hs
      | none => rwa [putSlot, getElem?_erase_of_ne same] at hs
    exact Nat.le_trans (before n s there) (Bool.toNat_le_toNat (others n same))

/-- A slot of a side is filled, emptied or lent. -/
theorem holds_setSlotAt (h : T.Holds (T.At body lent) τ w v) (mine : place.Of T.ours τ body T.side)
    {slot : Option Slot} (own : ∀ s, slot = some s → τ.Owns T.side s.value)
    (borrows : ∀ n s, place = .ofFrame n → slot = some s → s.borrows ≤ (lent' n).toNat)
    (others : ∀ n, place ≠ .ofFrame n → lent n = true → lent' n = true) :
    T.Holds (T.At body lent') τ (w.setSlotAt place slot)
      (if T.side = true then v.setSlotAt place slot else v) := by
  obtain ⟨twin, scene⟩ := h
  cases place with
  | ofWorld name =>
    refine ⟨twin.withSlots (f := fun t => putSlot t name slot) (split_putSlot twin.slots mine own), ?_⟩
    have scene' := Stacks.lend scene fun n => others n (by simp)
    cases T.side <;> exact scene'
  | ofCallable f name =>
    refine ⟨twin.withCallables
      (f := fun t => t.modify f fun c => { c with captured := putSlot c.captured name slot })
      (twin.callables.modify mine fun c hc => ⟨hc.steps, hc.results, hc.captured.put name slot own⟩),
          ?_⟩
    have scene' := Stacks.lend scene fun n => others n (by simp)
    cases T.side <;> exact scene'
  | ofFrame name =>
    obtain rfl : body = some T.side := mine
    refine ⟨twin.withActivities _ _, ?_⟩
    change Stacks T.ours τ _ _ (modifyFrame _ w.activities) _
    revert scene
    rw [At, Over]
    generalize w.activities = wa
    generalize hva : v.activities = va
    intro scene
    cases scene with
    | @body b f rest rest' _ w' v' side apart slots unborrowed below =>
      let f' : Frame := { f with slots := putSlot f.slots name slot }
      have scene' : Stacks T.ours τ (.body (some T.side)) lent' (.program (some f') rest :: w')
          (shared T.side (.program (some f') rest') v') :=
        .body side apart (slots.put name slot own)
            (putSlot_borrows unborrowed (fun s hs => borrows name s rfl hs)
          fun n ne => others n (by simpa using ne.symm)) below
      have same : (if T.side = true then v.setSlotAt (.ofFrame name) slot else v).activities
          = shared T.side (.program (some { f with slots := putSlot f.slots name slot }) rest') v' := by
        cases hs : T.side with
        | true =>
          rw [if_pos rfl, setSlotAt, hva, hs]
          rfl
        | false => rw [if_neg (by simp), hva, hs]; rfl
      rw [same]
      exact scene'

theorem leads_setSlotAt (mine : place.Of T.ours τ body T.side) {slot : Option Slot}
    (own : ∀ s, slot = some s → τ.Owns T.side s.value)
    (borrows : ∀ n s, place = .ofFrame n → slot = some s → s.borrows ≤ (lent' n).toNat)
    (others : ∀ n, place ≠ .ofFrame n → lent n = true → lent' n = true) :
    T.Leads τ (T.At body lent) (modify fun w => w.setSlotAt place slot) fun _ => T.At body lent' :=
  fun _ _ h => .modify ⟨τ, .refl T.side τ, holds_setSlotAt h mine own borrows others⟩

/-- What is in a slot of a side, and where that is. -/
theorem tries_filledSlot (kept : slotKept T.ours body T.side name = true) :
    T.Tries τ (T.At body lent) (filledSlot name) fun τ p => p.1.Of T.ours τ body T.side
      ∧ τ.Owns T.side p.2.value ∧ ∀ n, p.1 = .ofFrame n → p.2.borrows ≤ (lent n).toNat := by
  have same : ∀ w v, T.Holds (T.At body lent) τ w v → T.side = true →
      v.locate name = w.locate name ∧ ∀ place, w.locate name = some place →
          v.slotAt place = w.slotAt place :=
    fun w v h ours => ⟨locate_ours h kept ours, fun place there =>
        slotAt_ours h (locate_of h kept there) ours⟩
  refine .get (fun w v h ours => ?_) fun w v h => ?_
  · obtain ⟨place, slot⟩ := same w v h ours
    rw [place]
    cases there : w.locate name with
    | none => rfl
    | some place => dsimp only; rw [slot place there]
  · cases there : w.locate name with
    | none => exact Tries.throw _ w v h
    | some place =>
      have mine := locate_of h kept there
      dsimp only
      cases hs : w.slotAt place with
      | none => exact Tries.throw _ w v h
      | some s => exact Tries.pure ⟨mine, slotAt_of h mine hs⟩ w v h

/-- A value that is taken is one of the side whose slot it was in. -/
theorem tries_takeSlot (kept : slotKept T.ours body T.side name = true) :
    T.Tries τ (T.At body lent) (takeSlot name) fun τ v => τ.Owns T.side v := by
  refine .bind (tries_filledSlot kept) fun p τ' le known => ?_
  obtain ⟨place, s⟩ := p
  obtain ⟨mine, own, -⟩ := known
  have taken : T.Tries τ' (T.At body lent) (do
      modify fun w => w.setSlotAt place none
      return s.value : Try Value) fun τ v => τ.Owns T.side v := by
    refine .bind (.keeps (leads_setSlotAt mine (fun _ no => by cases no) (fun _ _ _ no => by cases no)
      fun n _ lent => lent)) fun _ τ'' le' _ => .pure (le'.owns own)
  dsimp only
  split
  · exact .bind (F := fun _ _ => False) (.throw _) fun _ _ _ no => no.elim
  · exact taken

theorem Loan.Of.only {ours : String → Bool} {body' : Option Bool} {b b' : Bool}
    (frame : ∀ n, place ≠ .ofFrame n)
    (h : place.Of ours τ body b) (h' : place.Of ours τ body' b') : b' = b := by
  cases place with
  | ofWorld name => exact h'.symm.trans h
  | ofCallable f name => exact Option.some.inj (h'.symm.trans h)
  | ofFrame name => exact absurd rfl (frame name)

/-- A value is stored in a slot of its side.  What it replaces is dropped, or left to a call of that side
that borrows the slot. -/
theorem tries_storeSlot (kept : slotKept T.ours body T.side name = true) {x : Value}
    (own : τ.Owns T.side x) :
    T.Tries τ (T.At body unlent) (storeSlot name x) fun _ _ => True := by
  refine .get (fun w v h ours => ?_) fun w v h => ?_
  · rw [locate_ours h kept ours]
    cases there : w.locate name with
    | none => rfl
    | some place => dsimp only; rw [slotAt_ours h (locate_of h kept there) ours]
  · cases there : w.locate name with
    | none => exact Tries.bind (.keeps (keeps_dropValue own)) (fun _ _ _ _ => .throw _) w v h
    | some place =>
      have mine := locate_of h kept there
      have stored : T.Tries τ (T.At body unlent)
          (modify fun w => w.setSlotAt place (some ⟨x, 0⟩) : Try PUnit) fun _ _ => True :=
        .keeps (leads_setSlotAt mine (fun s hs => Option.some.inj hs ▸ own)
          (fun _ s _ hs => Option.some.inj hs ▸ Nat.zero_le _) fun n _ lent => lent)
      dsimp only
      cases hs : w.slotAt place with
      | none => exact stored w v h
      | some old =>
        obtain ⟨own', borrows⟩ := slotAt_of h mine hs
        refine Tries.bind stored (fun _ τ' le _ => ?_) w v h
        have dropped := Tries.keeps (keeps_dropValue (K := T.At body unlent) (le.owns own'))
        split
        · exact dropped
        · rename_i lent
          have frame : ∀ n, place ≠ .ofFrame n := fun n frame => lent (Nat.le_zero.mp (borrows n frame))
          intro w v h
          obtain ⟨none, none'⟩ | ⟨wa, va, some, some', same, scene⟩ :=
            Stacks.entrust h.2 (fun _ _ => Loan.Of.only frame (le.loan mine)) frame (le.owns own')
          · refine TracksAt.get (f := fun w => ExceptT.run _) (fun ours => ?_) ?_
            · rw [none, none' ours]
            · rw [none]
              exact dropped w v h
          · refine .of_run (.ok ⟨⟩) { w with activities := wa } { v with activities := va } ?_
              (fun ours => ?_)
              ⟨τ', .refl T.side τ', ?_⟩
            · rw [try_get_bind, some]
              rfl
            · rw [try_get_bind, some' ours]
              rfl
            · refine ⟨h.1.withActivities wa va, trivial, ?_⟩
              cases ours : T.side with
              | true => exact scene
              | false => rw [if_neg (by simp), ← same ours]; exact scene

/-! ## Calls that borrow a slot -/

/-- The slot of the frame that a call borrows, if it borrows one. -/
def lends (c : Calling) (n : String) : Bool := c.loan = .ofFrame n && c.replaced.isNone

/-- What is lent of the frame on top. -/
theorem borrows_of (h : T.Holds (T.At body lent) τ w v) {n : String} {s : Slot}
    (hn : w.slotAt (.ofFrame n) = some s) : s.borrows ≤ (lent n).toNat := by
  obtain ⟨f, hf, there⟩ := Option.bind_eq_some_iff.mp hn
  obtain ⟨-, -, -, -, borrows⟩ := frame_of h hf
  exact borrows n s there

/-- The slots of the frame on top are lent as they say. -/
theorem holds_lent (h : T.Holds (T.At body lent) τ w v)
    (borrows : ∀ n s, w.slotAt (.ofFrame n) = some s → s.borrows ≤ (lent' n).toNat) :
    T.Holds (T.At body lent') τ w v := by
  obtain ⟨twin, scene⟩ := h
  refine ⟨twin, ?_⟩
  simp only [slotAt, frame?] at borrows
  revert scene borrows
  rw [At, At, Over, Over]
  generalize w.activities = wa
  generalize v.activities = va
  intro borrows scene
  cases scene with
  | base apart => exact .base apart
  | body side apart slots _ below => exact .body side apart slots (fun n s hs => borrows n s hs) below

/-- The slot that a call borrowed is given back. -/
theorem leads_giveBack {c : Calling} (mine : c.loan.Of T.ours τ body T.side)
    (replaced : ∀ x, c.replaced = some x → τ.Owns T.side x) :
    T.Leads τ (T.At body (lends c)) (giveBack c) fun _ => T.At body unlent := by
  unfold giveBack
  cases hr : c.replaced with
  | some x =>
    have none : lends c = unlent := by
      funext n
      rw [lends, hr]
      simp [unlent]
    rw [none]
    exact keeps_dropValue (replaced x hr)
  | none =>
    refine fun w v h => .modify ⟨τ, .refl T.side τ, ?_⟩
    have only : ∀ n, lends c n = true → c.loan = .ofFrame n := fun n lent =>
      of_decide_eq_true (Bool.and_eq_true_iff.mp lent).1
    have same := slotAt_ours h mine
    cases hs : w.slotAt c.loan with
    | none =>
      have whole : w.unborrow c.loan = w := by rw [unborrow, hs]
      have share : (if T.side = true then v.unborrow c.loan else v) = v := by
        split
        · rename_i ours
          rw [unborrow, same ours, hs]
        · rfl
      rw [whole, share]
      refine holds_lent h fun n s hn => ?_
      have bound := borrows_of h hn
      cases lent : lends c n with
      | false => rwa [lent] at bound
      | true =>
        rw [only n lent, hn] at hs
        cases hs
    | some s =>
      have whole : w.unborrow c.loan = w.setSlotAt c.loan
          (some { s with borrows := s.borrows - 1 }) := by
        rw [unborrow, hs]
      have share : (if T.side = true then v.unborrow c.loan else v) = if T.side = true then
          v.setSlotAt c.loan (some { s with borrows := s.borrows - 1 }) else v := by
        split
        · rename_i ours
          rw [unborrow, same ours, hs]
        · rfl
      obtain ⟨own, borrows⟩ := slotAt_of h mine hs
      rw [whole, share]
      refine holds_setSlotAt h mine (fun u hu => Option.some.inj hu ▸ own) (fun n u frame hu => ?_)
        fun n frame lent => absurd (only n lent) frame
      rw [← Option.some.inj hu]
      have few := Nat.le_trans (borrows n frame) (Bool.toNat_le _)
      exact Nat.sub_le_of_le_add few

end Turn

end ScriptBridge.Host

import ScriptBridge.Proofs.Passage
import ScriptBridge.Proofs.PinOwners

/-!
# ScriptBridge.Proofs.Restoring

Values of other sessions are not made ready, and a list of values that stops at one leaves nothing
behind.  The cells and pins of the values before it have numbers that were not given out when the
list was begun, so `Session.Since` speaks of the session below those numbers only; what is above
them goes when the list is abandoned, and the session is `Session.Restored`.

Main facts:

* `Session.packAll_foreign` — a list fails at its first value of another session;
* `Session.Since.restored` — a session that holds no more than before is as it was.
-/

namespace ScriptBridge

namespace Session

variable {s s₀ s' : Session}

/-! ## A transfer that is undone -/

/-- What a session is after a transfer to it that was undone: only the numbers that are given out
next, and the count of all allocations ever made, may differ. -/
structure Restored (s s' : Session) : Prop where
  id : s'.id = s.id
  machine : s'.machine = s.machine
  isOpen : s'.isOpen = s.isOpen
  active : s'.active = s.active
  anchors : s'.anchors = s.anchors
  handles : s'.handles = s.handles
  cells : ∀ k, s'.cell? k = s.cell? k
  pins : ∀ h, s'.pins.get? h = s.pins.get? h
  pinned : s'.pins.size = s.pins.size
  outstanding : s'.ledger.outstanding = s.ledger.outstanding
  overdrawn : s'.ledger.overdrawn = s.ledger.overdrawn

theorem Restored.refl (s : Session) : s.Restored s :=
  ⟨rfl, rfl, rfl, rfl, rfl, rfl, fun _ => rfl, fun _ => rfl, rfl, rfl, rfl⟩

/-- What a session is while a transfer to it is made ready, or undone: all that came since has
numbers that were not given out before, and has no anchor. -/
structure Since (s₀ s : Session) : Prop where
  id : s.id = s₀.id
  machine : s.machine = s₀.machine
  isOpen : s.isOpen = s₀.isOpen
  active : s.active = s₀.active
  anchors : s.anchors = s₀.anchors
  handles : s.handles = s₀.handles
  cells : ∀ k < s₀.nextCell, s.cell? k = s₀.cell? k
  pins : ∀ h : Handle, h.number ≤ s₀.pins.issued → s.pins.get? h = s₀.pins.get? h
  young : ∀ k c, s₀.nextCell ≤ k → s.cell? k = some c →
    c.anchor? = none ∧ ∀ h, c.handle? = some h → s₀.pins.issued < h.number
  next : s₀.nextCell ≤ s.nextCell
  issued : s₀.pins.issued ≤ s.pins.issued

namespace Since

theorem refl (hs : s.Orderly) : s.Since s where
  id := rfl
  machine := rfl
  isOpen := rfl
  active := rfl
  anchors := rfl
  handles := rfl
  cells := fun _ _ => rfl
  pins := fun _ _ => rfl
  young := fun _ _ beyond hc => absurd (hs.fresh _ (mem_keys.mpr ⟨_, hc⟩)) (Nat.not_lt.mpr beyond)
  next := Nat.le_refl _
  issued := Nat.le_refl _

/-- A new cell has a new number. -/
theorem store (h : s₀.Since s) {c : Cell} (copied : c.anchor? = none)
    (later : ∀ handle, c.handle? = some handle → s₀.pins.issued < handle.number) :
    s₀.Since (s.stored c) :=
  { h with
    cells := fun k below => by
      rw [cell?_stored_of_ne (Nat.ne_of_lt (Nat.lt_of_lt_of_le below h.next)), h.cells k below]
    young := fun k d beyond hd => by
      by_cases here : k = s.nextCell
      · subst here
        obtain rfl := Option.some.inj ((cell?_stored_self c).symm.trans hd)
        exact ⟨copied, later⟩
      · rw [cell?_stored_of_ne here] at hd
        exact h.young k d beyond hd
    next := Nat.le_succ_of_le h.next }

/-- A new pin has a new handle. -/
theorem pin (h : s₀.Since s) (f : CallableId) : s₀.Since { s with pins := (s.pins.pin f).2 } :=
  { h with
    pins := fun handle below => by
      change (s.pins.pin f).2.get? handle = _
      rw [Registry.get?_pin, if_neg, h.pins handle below]
      rintro rfl
      exact absurd (Nat.le_trans below h.issued) (Nat.not_le.mpr (Nat.lt_succ_self _))
    issued := Nat.le_succ_of_le h.issued }

/-- A value of the session is made ready in a cell that was not in use, or in none. -/
theorem pack (h : s₀.Since s) {v : Value} (own : ∀ r, v.ref? = some r → r.session = s.id) :
    ∃ out s', (Session.pack v).run.run s = (.ok out, s') ∧ s₀.Since s'
      ∧ ∀ k, out.owned? = some k → s₀.nextCell ≤ k := by
  have borrowed : ∀ r : Ref, r.session = s.id → (borrow r).run.run s = (.ok (.lent r.cell), s) := by
    intro r mine
    rw [borrow, try_get_bind, if_pos mine]
    rfl
  have made : ∀ k, (Outbound.owned s.nextCell).owned? = some k → s₀.nextCell ≤ k := by
    rintro k ⟨⟩
    exact h.next
  cases v with
  | nil => exact ⟨.nil, s, rfl, h, fun _ none => by cases none⟩
  | number y => exact ⟨_, _, rfl, h.store (c := .number y) rfl (fun _ none => by cases none), made⟩
  | boolean b => exact ⟨_, _, rfl, h.store (c := .boolean b) rfl (fun _ none => by cases none), made⟩
  | string text =>
    exact ⟨_, _, rfl, h.store (c := .string text.toUTF8) rfl (fun _ none => by cases none), made⟩
  | reference r | function r =>
    exact ⟨_, s, borrowed r (own r rfl), h, fun _ none => by cases none⟩
  | callable f =>
    refine ⟨_, _, rfl, (h.pin f).store (c := .pinned s.pins.next) rfl fun handle eq => ?_, made⟩
    cases eq
    exact Nat.lt_succ_of_le h.issued

/-- A cell that came since goes. -/
theorem free (h : s₀.Since s) {k : CellId} (beyond : s₀.nextCell ≤ k) :
    s₀.Since ((Session.free k).run s).2 := by
  cases hc : s.cell? k with
  | none =>
    have run : (Session.free k).run s = ((), { ((withdraw k).run s).2 with
        ledger := ((withdraw k).run s).2.ledger.release ((withdraw k).run s).1.1 }) := rfl
    rw [run, withdraw_run_of_none hc]
    exact { h with }
  | some c =>
    obtain ⟨copied, later⟩ := h.young k c beyond hc
    rw [free_run hc]
    have anchors : (s.freed k c).anchors = s.anchors := anchors_withdrawn_copied k copied
    exact { h with
      anchors := anchors.trans h.anchors
      cells := fun j below => by
        have ne : j ≠ k := Nat.ne_of_lt (Nat.lt_of_lt_of_le below beyond)
        exact (cell?_withdrawn_of_ne (c := c) ne).trans (h.cells j below)
      pins := fun handle below => by
        refine Eq.trans (@get?_pins_withdrawn s k c handle fun mine => ?_) (h.pins handle below)
        cases hh : c.handle? with
        | none => simp [Cell.pins, hh] at mine
        | some own =>
          have same : handle.number = own.number := by simpa [Cell.pins, hh] using mine
          exact absurd (later own hh) (Nat.not_lt.mpr (same ▸ below))
      young := fun j d far hd => h.young j d far (cell?_of_withdrawn (c := c) hd)
      issued := by
        refine Nat.le_trans h.issued (Nat.le_of_eq ?_)
        cases hh : c.handle? with
        | none =>
          have pins : (s.freed k c).pins = s.pins := pins_withdrawn_unpinned k hh
          rw [pins]
        | some own =>
          have pins : (s.freed k c).pins = (s.pins.release own).2 := pins_withdrawn k hh
          rw [pins]
          rfl }

/-- What was made ready since goes. -/
theorem abandon (h : s₀.Since s) {outs : List Outbound}
    (new : ∀ out ∈ outs, ∀ k, out.owned? = some k → s₀.nextCell ≤ k) :
    s₀.Since ((Session.abandon outs).run s).2 := by
  induction outs generalizing s with
  | nil => exact h
  | cons out outs ih =>
    rw [List.forall_mem_cons] at new
    cases out with
    | nil | lent => exact ih h new.2
    | owned k => exact ih (h.free (new.1 k rfl)) new.2

end Since

/-- A value of another session is not made ready, and nothing is done. -/
theorem pack_foreign {v : Value} {r : Ref} (hv : v.ref? = some r) (foreign : r.session ≠ s.id) :
    (pack v).run.run s = (.error (.wrongSession s.id r.session), s) := by
  have refused : (borrow r).run.run s = (.error (.wrongSession s.id r.session), s) := by
    rw [borrow, try_get_bind, if_neg foreign]
    rfl
  cases v with
  | reference q | function q =>
    obtain rfl := Option.some.inj hv
    exact refused
  | _ => cases hv

/-- A batch of the session's values is made ready in cells that were not in use. -/
theorem packFrom_since (h : s₀.Since s) {done : List Outbound} (index : Nat) {vs : List Value}
    (new : ∀ out ∈ done, ∀ k, out.owned? = some k → s₀.nextCell ≤ k)
    (own : ∀ v ∈ vs, ∀ r, v.ref? = some r → r.session = s₀.id) :
    ∃ outs s', (packFrom index done vs).run.run s = (.ok outs, s') ∧ s₀.Since s'
      ∧ ∀ out ∈ outs, ∀ k, out.owned? = some k → s₀.nextCell ≤ k := by
  induction vs generalizing s index done with
  | nil => exact ⟨_, s, rfl, h, fun out hout => new out (List.mem_reverse.mp hout)⟩
  | cons v vs ih =>
    rw [List.forall_mem_cons] at own
    obtain ⟨out, s₁, run, since, beyond⟩ := h.pack fun r hr => (own.1 r hr).trans h.id.symm
    obtain ⟨outs, s', run', since', all⟩ :=
      ih since (index + 1) (List.forall_mem_cons.mpr ⟨beyond, new⟩) own.2
    exact ⟨outs, s', by rw [packFrom, try_bind_ok (try_tryCatch_ok run), run'], since', all⟩

/-- A batch fails at its first value of another session, and what was made ready is undone. -/
theorem packFrom_foreign (h : s₀.Since s) {done : List Outbound} (index : Nat) {us : List Value}
    (vs : List Value) {v : Value} {r : Ref}
    (new : ∀ out ∈ done, ∀ k, out.owned? = some k → s₀.nextCell ≤ k)
    (own : ∀ u ∈ us, ∀ q, u.ref? = some q → q.session = s₀.id)
    (hv : v.ref? = some r) (foreign : r.session ≠ s₀.id) :
    ∃ s', (packFrom index done (us ++ v :: vs)).run.run s
        = (.error ((Failure.wrongSession s₀.id r.session).ofItem (index + us.length)), s')
      ∧ s₀.Since s' := by
  induction us generalizing s index done with
  | nil =>
    have undone : s₀.Since ((Session.abandon done.reverse).run s).2 :=
      h.abandon fun out hout => new out (List.mem_reverse.mp hout)
    refine ⟨_, ?_, undone⟩
    rw [← h.id] at foreign ⊢
    rw [List.nil_append, packFrom]
    refine try_bind_error ?_
    rw [ExceptT.run_tryCatch, stateM_run_bind, pack_foreign hv foreign]
    rfl
  | cons u us ih =>
    rw [List.forall_mem_cons] at own
    obtain ⟨out, s₁, run, since, beyond⟩ :=
      h.pack fun q hq => (own.1 q hq).trans h.id.symm
    obtain ⟨s', run', since'⟩ := ih since (index + 1)
      (List.forall_mem_cons.mpr ⟨beyond, new⟩) own.2
    refine ⟨s', ?_, since'⟩
    rw [List.cons_append, packFrom, try_bind_ok (try_tryCatch_ok run), run', List.length_cons,
      Nat.add_assoc, Nat.add_comm 1]

theorem packAll_foreign (hs : s.Orderly) {us : List Value} (vs : List Value) {v : Value} {r : Ref}
    (own : ∀ u ∈ us, ∀ q, u.ref? = some q → q.session = s.id)
    (hv : v.ref? = some r) (foreign : r.session ≠ s.id) :
    ∃ s', (packAll (us ++ v :: vs)).run.run s
        = (.error ((Failure.wrongSession s.id r.session).ofItem us.length), s') ∧ s.Since s' := by
  have none : ∀ out ∈ [], ∀ k, Outbound.owned? out = some k → s.nextCell ≤ k := nofun
  have all := packFrom_foreign (Since.refl hs) 0 vs none own hv foreign
  rwa [Nat.zero_add] at all

/-- If the books are right for the same inventory before and after, all that came since went. -/
theorem Since.restored {e e' : Env} {K : Multiset Holding} (h : s.Since s') (ho : s.isOpen)
    (before : s.Sound e K) (after : s'.Sound e' K) : s.Restored s' := by
  have sameCells : keys s'.cells = keys s.cells := by rw [after.cells, h.id, before.cells]
  have cells : ∀ k, s'.cell? k = s.cell? k := by
    intro k
    by_cases here : k ∈ keys s.cells
    · exact h.cells k (before.fresh k here)
    · have gone := sameCells ▸ here
      rw [mem_keys, not_exists] at here gone
      exact (Option.eq_none_iff_forall_ne_some.mpr gone).trans
        (Option.eq_none_iff_forall_ne_some.mpr here).symm
  have entries : entries s'.cells = entries s.cells := entries_congr cells
  have samePins : keys s'.pins.live = keys s.pins.live := by
    rw [before.pins ho, after.pins (h.isOpen.trans ho), cellPins, entries, userdataPins, h.handles,
      h.id]
    rfl
  have pins : ∀ handle, s'.pins.get? handle = s.pins.get? handle := by
    intro handle
    by_cases here : handle.number ∈ keys s.pins.live
    · exact h.pins handle (before.issued _ here)
    · have gone := samePins ▸ here
      rw [mem_keys, not_exists] at here gone
      exact (Option.eq_none_iff_forall_ne_some.mpr gone).trans
        (Option.eq_none_iff_forall_ne_some.mpr here).symm
  exact {
    h with
    cells := cells
    pins := pins
    pinned := by rw [Host.size_pins, Host.size_pins, samePins]
    outstanding := by rw [before.ledger, after.ledger, weigh, weigh, entries, h.id]
    overdrawn := by rw [before.solvent, after.solvent] }

end Session

end ScriptBridge

import Mathlib.Algebra.GroupWithZero.Nat
import Mathlib.Data.List.ReduceOption
import ScriptBridge.Proofs.Passage

/-!
# ScriptBridge.Proofs.Freeing

What is left of a session when some of its cells are released.  `Session.Freed` says it as a whole:
these cells are gone, with the anchors and the pins that they owned and the allocations that they
stood for, and nothing else has changed.  Only the number of releases matters, not their order.

Main facts:

* `Session.freed_freeAll` — cells that are not the same are released, each of them once;
* `Session.Freed.trans` — releases that follow each other;
* `Session.Freed.perm` — the order of releases does not matter.
-/

namespace ScriptBridge.Session

variable {s s' s'' : Session} {cs ds : List (Option CellId)} {c : Option CellId} {k : CellId}

/-! ## What cells own -/

/-- The cells in slots. -/
def cellsOf (s : Session) (cs : List (Option CellId)) : List Cell := cs.filterMap (·.bind s.cell?)

/-- The anchors that the cells in slots own. -/
def anchorsOf (s : Session) (cs : List (Option CellId)) : List Anchor :=
  (s.cellsOf cs).filterMap Cell.anchor?

/-- The handles that the cells in slots own. -/
def handlesOf (s : Session) (cs : List (Option CellId)) : List Handle :=
  (s.cellsOf cs).filterMap Cell.handle?

/-- The allocations that the cells in slots stand for. -/
def weightOf (s : Session) (cs : List (Option CellId)) : Nat := ((s.cellsOf cs).map Cell.weight).sum

theorem cellsOf_congr (same : ∀ c ∈ cs, c.bind s'.cell? = c.bind s.cell?) :
    s'.cellsOf cs = s.cellsOf cs := List.filterMap_congr same

theorem cellsOf_append (cs ds : List (Option CellId)) :
    s.cellsOf (cs ++ ds) = s.cellsOf cs ++ s.cellsOf ds := List.filterMap_append

theorem anchorsOf_append (cs ds : List (Option CellId)) :
    s.anchorsOf (cs ++ ds) = s.anchorsOf cs ++ s.anchorsOf ds := by
  rw [anchorsOf, cellsOf_append, List.filterMap_append, anchorsOf, anchorsOf]

theorem handlesOf_append (cs ds : List (Option CellId)) :
    s.handlesOf (cs ++ ds) = s.handlesOf cs ++ s.handlesOf ds := by
  rw [handlesOf, cellsOf_append, List.filterMap_append, handlesOf, handlesOf]

theorem weightOf_append (cs ds : List (Option CellId)) :
    s.weightOf (cs ++ ds) = s.weightOf cs + s.weightOf ds := by
  rw [weightOf, cellsOf_append, List.map_append, List.sum_append, weightOf, weightOf]

/-- Neither the order of slots matters, nor whether there are empty ones. -/
theorem cellsOf_perm (h : cs.reduceOption.Perm ds.reduceOption) :
    (s.cellsOf cs).Perm (s.cellsOf ds) := by
  have filled : ∀ cs : List (Option CellId), s.cellsOf cs = cs.reduceOption.filterMap s.cell? :=
    fun cs => by rw [cellsOf, List.reduceOption, List.filterMap_filterMap]; rfl
  rw [filled, filled]
  exact h.filterMap _

/-! ## Cells that go -/

/-- What a session is after the cells in some slots were released, each of them once. -/
structure Freed (s : Session) (cs : List (Option CellId)) (s' : Session) : Prop where
  id : s'.id = s.id
  machine : s'.machine = s.machine
  isOpen : s'.isOpen = s.isOpen
  active : s'.active = s.active
  handles : s'.handles = s.handles
  nextCell : s'.nextCell = s.nextCell
  cells : ∀ k, s'.cell? k = if some k ∈ cs then none else s.cell? k
  pins : ∀ h, s'.pins.get? h = if h ∈ s.handlesOf cs then none else s.pins.get? h
  issued : s'.pins.issued = s.pins.issued
  anchors : ∀ a, s'.anchors.get? a
    = if s.active.isSome ∧ a ∈ s.anchorsOf cs then none else s.anchors.get? a
  spare : s'.anchors.spare.Perm
    ((if s.active.isSome then s.anchorsOf cs else []) ++ s.anchors.spare)
  outstanding : s'.ledger.outstanding + s.weightOf cs = s.ledger.outstanding
  total : s'.ledger.total = s.ledger.total
  overdrawn : s.weightOf cs ≤ s.ledger.outstanding → s'.ledger.overdrawn = s.ledger.overdrawn

namespace Freed

theorem refl (s : Session) : s.Freed [] s where
  id := rfl
  machine := rfl
  isOpen := rfl
  active := rfl
  handles := rfl
  nextCell := rfl
  cells := fun k => by rw [if_neg List.not_mem_nil]
  pins := fun h => (if_neg List.not_mem_nil).symm
  issued := rfl
  anchors := fun a => (if_neg fun h => List.not_mem_nil h.2).symm
  spare := by
    have none : s.anchorsOf [] = [] := rfl
    rw [none, ite_self, List.nil_append]
  outstanding := Int.add_zero _
  total := rfl
  overdrawn := fun _ => rfl

/-- Cells that are not among those that went are what they were. -/
theorem cellsOf (h : s.Freed cs s') (apart : ∀ k, some k ∈ ds → some k ∉ cs) :
    s'.cellsOf ds = s.cellsOf ds :=
  cellsOf_congr fun c hc => by
    cases c with
    | none => rfl
    | some k =>
      change s'.cell? k = s.cell? k
      rw [h.cells, if_neg (apart k hc)]

/-- Releases that follow each other. -/
theorem trans (h : s.Freed cs s') (h' : s'.Freed ds s'') (apart : ∀ k, some k ∈ ds → some k ∉ cs) :
    s.Freed (cs ++ ds) s'' := by
  have same := h.cellsOf apart
  have anchors : s'.anchorsOf ds = s.anchorsOf ds := by rw [anchorsOf, same, anchorsOf]
  have handles : s'.handlesOf ds = s.handlesOf ds := by rw [handlesOf, same, handlesOf]
  have weight : s'.weightOf ds = s.weightOf ds := by rw [weightOf, same, weightOf]
  have outstanding := h.outstanding
  have outstanding' := h'.outstanding
  rw [weight] at outstanding'
  exact {
    id := h'.id.trans h.id
    machine := h'.machine.trans h.machine
    isOpen := h'.isOpen.trans h.isOpen
    active := h'.active.trans h.active
    handles := h'.handles.trans h.handles
    nextCell := h'.nextCell.trans h.nextCell
    cells := fun k => by
      rw [h'.cells, h.cells]
      by_cases here : some k ∈ cs <;> by_cases there : some k ∈ ds <;> simp [here, there]
    pins := fun k => by
      rw [h'.pins, h.pins, handles, handlesOf_append]
      by_cases here : k ∈ s.handlesOf cs <;> by_cases there : k ∈ s.handlesOf ds <;>
        simp [here, there]
    issued := h'.issued.trans h.issued
    anchors := fun a => by
      rw [h'.anchors, h.anchors, h.active, anchors, anchorsOf_append]
      cases s.active <;> by_cases here : a ∈ s.anchorsOf cs <;>
        by_cases there : a ∈ s.anchorsOf ds <;> simp [here, there]
    spare := by
      have spare := h'.spare
      rw [h.active, anchors] at spare
      refine spare.trans ?_
      rw [anchorsOf_append]
      split
      · rename_i awake
        have first := h.spare
        rw [if_pos awake] at first
        rw [List.append_assoc]
        exact (first.append_left _).trans (List.perm_append_comm_assoc ..)
      · rename_i asleep
        have first := h.spare
        rwa [if_neg asleep] at first
    outstanding := by
      rw [weightOf_append]
      omega
    total := h'.total.trans h.total
    overdrawn := fun enough => by
      rw [weightOf_append] at enough
      rw [h'.overdrawn (by omega), h.overdrawn (by omega)] }

/-- The order of releases does not matter. -/
theorem perm (h : s.Freed cs s') (same : cs.reduceOption.Perm ds.reduceOption) :
    s.Freed ds s' := by
  have cells := @cellsOf_perm s cs ds same
  have mem : ∀ k, some k ∈ cs ↔ some k ∈ ds := fun k => by
    rw [← List.reduceOption_mem_iff, same.mem_iff, List.reduceOption_mem_iff]
  have anchors : (s.anchorsOf cs).Perm (s.anchorsOf ds) := cells.filterMap _
  have handles : (s.handlesOf cs).Perm (s.handlesOf ds) := cells.filterMap _
  have weight : s.weightOf cs = s.weightOf ds := (cells.map Cell.weight).sum_eq
  exact { h with
    cells := fun k => by simp only [h.cells, mem]
    pins := fun k => by simp only [h.pins, handles.mem_iff]
    anchors := fun a => by simp only [h.anchors, anchors.mem_iff]
    spare := by
      refine h.spare.trans (List.Perm.append_right _ ?_)
      split
      · exact anchors
      · exact .nil
    outstanding := weight ▸ h.outstanding
    overdrawn := weight ▸ h.overdrawn }

end Freed

/-- A cell that is released is gone, with what it owned. -/
theorem freed_free (s : Session) (k : CellId) : s.Freed [some k] ((free k).run s).2 := by
  have mem : ∀ j : CellId, (some j ∈ [some k]) ↔ j = k := fun j => by simp
  cases hc : s.cell? k with
  | none =>
    have run : (free k).run s = ((), { ((withdraw k).run s).2 with
        ledger := ((withdraw k).run s).2.ledger.release ((withdraw k).run s).1.1 }) := rfl
    have none : s.cellsOf [some k] = [] := by
      rw [cellsOf, List.filterMap_cons, Option.bind_some, hc]
      rfl
    rw [run, withdraw_run_of_none hc]
    exact { Freed.refl s with
      cells := fun j => by
        simp only [mem]
        split
        · rename_i here
          exact here ▸ hc
        · rfl
      pins := fun h => by rw [handlesOf, none]; exact (Freed.refl s).pins h
      anchors := fun a => by rw [anchorsOf, none]; exact (Freed.refl s).anchors a
      spare := by rw [anchorsOf, none]; exact (Freed.refl s).spare
      outstanding := by
        rw [weightOf, none]
        simp
      overdrawn := fun enough => by
        rw [weightOf, none] at enough
        exact Ledger.overdrawn_release enough }
  | some c =>
    have one : s.cellsOf [some k] = [c] := by
      rw [cellsOf, List.filterMap_cons, Option.bind_some, hc]
      rfl
    rw [free_run hc]
    exact {
      id := rfl
      machine := rfl
      isOpen := rfl
      active := rfl
      handles := rfl
      nextCell := rfl
      cells := fun j => by
        simp only [mem]
        split
        · rename_i here
          subst here
          exact @cell?_withdrawn_self s j c
        · rename_i other
          exact cell?_withdrawn_of_ne (c := c) other
      pins := fun h => by
        rw [handlesOf, one]
        cases hh : c.handle? with
        | none => simp [freed, withdrawn, hh]
        | some own => simp [freed, withdrawn, hh, Registry.get?_release]
      issued := by
        cases hh : c.handle? with
        | none => simp [freed, withdrawn, hh]
        | some own => simp [freed, withdrawn, hh, Registry.release]
      anchors := fun a => by
        rw [anchorsOf, one]
        cases ha : c.anchor? with
        | none => simp [freed, withdrawn, ha]
        | some own => cases active : s.active <;>
            simp [freed, withdrawn, ha, active, Anchors.get?_free]
      spare := by
        rw [anchorsOf, one]
        cases ha : c.anchor? with
        | none => simp [freed, withdrawn, ha]
        | some own => cases active : s.active <;>
            simp [freed, withdrawn, ha, active, Anchors.free]
      outstanding := by
        rw [weightOf, one]
        simp [freed]
      total := rfl
      overdrawn := fun enough => by
        rw [weightOf, one] at enough
        exact Ledger.overdrawn_release (by simpa using enough) }

theorem apart_iff_nodup : Apart cs ↔ cs.reduceOption.Nodup := by
  induction cs with
  | nil => exact ⟨fun _ => .nil, fun _ => .nil⟩
  | cons c cs ih =>
    rw [Apart, List.pairwise_cons, ← Apart, ih]
    cases c with
    | none => exact ⟨fun h => h.2, fun h => ⟨fun _ _ _ gone => absurd gone.symm (Option.some_ne_none _), h⟩⟩
    | some k =>
      rw [List.reduceOption_cons_of_some, List.nodup_cons, List.reduceOption_mem_iff]
      refine and_congr_left fun _ => ⟨fun apart here => apart _ here k rfl rfl, ?_⟩
      rintro other d hd j ⟨⟩ rfl
      exact other hd

/-- Cells are released, each of them once. -/
theorem freed_freeAll (s : Session) (apart : Apart cs) : s.Freed cs ((freeAll cs).run s).2 := by
  induction cs generalizing s with
  | nil => exact .refl s
  | cons c cs ih =>
    obtain ⟨first, rest⟩ := List.pairwise_cons.mp apart
    cases c with
    | none => exact (ih s rest).perm (.refl _)
    | some k =>
      refine (freed_free s k).trans (ih _ rest) fun j hj here => ?_
      obtain rfl := Option.some.inj (List.mem_singleton.mp here)
      exact first _ hj j rfl rfl

end ScriptBridge.Session

import ScriptBridge.Proofs.Contents
import ScriptBridge.Proofs.Declining
import ScriptBridge.Proofs.Freeing

/-!
# ScriptBridge.Proofs.Outbound

A list of host values is made ready for its way to the runtime, or none of it is.
`Session.Packed` says exactly what has changed when it is: the cells that are given out next carry
the values that are copied, the handles that are given out next pin the callables, one for each time
that a callable stands in the list, and references lend the cells that they have.  So what goes with
the list later is known, whatever has become of the session in the meantime.  Where the values of a
list are still held, a world lets go of it in the same way (`World.releaseOutbound_run`).

Main facts:

* `Session.packFrom_packed` — a list of values of the session is made ready;
* `Session.packFrom_refused` — a list stops at its first value of another session;
* `Session.packAll_all` — a list is made ready, or nothing is.
-/

namespace ScriptBridge

namespace Value

/-- Whether a value travels in a cell of its own. -/
def isBoxed (v : Value) : Bool := 0 < v.allocations

def isCallable : Value → Bool
  | .callable _ => true
  | _ => false

end Value

namespace Session

variable {s s₁ s₂ s' : Session} {us vs : List Value} {os outs : List Outbound} {v : Value}
  {r : Ref} {k : CellId}

/-- Whether all cells and handles in use have numbers that were given out. -/
structure Numbered (s : Session) : Prop where
  cells : ∀ k c, s.cell? k = some c → k < s.nextCell
  pins : ∀ h f, s.pins.get? h = some f → h.number ≤ s.pins.issued

theorem Numbered.unused (numbered : s.Numbered) (beyond : s.nextCell ≤ k) : s.cell? k = none :=
  Option.eq_none_iff_forall_ne_some.mpr fun c hc =>
    absurd (numbered.cells k c hc) (Nat.not_lt.mpr beyond)

theorem Numbered.unpinned (numbered : s.Numbered) {h : Handle} (beyond : s.pins.issued < h.number) :
    s.pins.get? h = none :=
  Option.eq_none_iff_forall_ne_some.mpr fun f hf =>
    absurd (numbered.pins h f hf) (Nat.not_le.mpr beyond)

/-- The slots of the cells that a transfer owns. -/
def slotsOf (outs : List Outbound) : List (Option CellId) := outs.map Outbound.owned?

theorem mem_slotsOf : some k ∈ slotsOf outs ↔ .owned k ∈ outs := by
  rw [slotsOf, List.mem_map]
  constructor
  · rintro ⟨out, there, own⟩
    cases out with
    | owned j =>
      obtain rfl := Option.some.inj own
      exact there
    | nil | lent => cases own
  · exact fun there => ⟨_, there, rfl⟩

/-- What a session is after values were made ready, compared with what it was. -/
structure Packed (s : Session) (vs : List Value) (outs : List Outbound) (s' : Session) : Prop where
  id : s'.id = s.id
  machine : s'.machine = s.machine
  isOpen : s'.isOpen = s.isOpen
  active : s'.active = s.active
  anchors : s'.anchors = s.anchors
  handles : s'.handles = s.handles
  /-- Each value has what carries it, in the order of the list. -/
  values : List.Forall₂ s'.Packs vs outs
  /-- The cells of the list are those that were given out next. -/
  boxes : (slotsOf outs).reduceOption = List.range' s.nextCell (vs.countP Value.isBoxed)
  unused : ∀ k, .owned k ∈ outs → s.cell? k = none
  cells : ∀ k, .owned k ∉ outs → s'.cell? k = s.cell? k
  /-- The handles of the list are those that were given out next. -/
  fresh : (s'.handlesOf (slotsOf outs)).map Handle.number
    = List.range' (s.pins.issued + 1) (vs.countP Value.isCallable)
  unpinned : ∀ h ∈ s'.handlesOf (slotsOf outs), s.pins.get? h = none
  pins : ∀ h, h ∉ s'.handlesOf (slotsOf outs) → s'.pins.get? h = s.pins.get? h
  unanchored : s'.anchorsOf (slotsOf outs) = []
  weight : s'.weightOf (slotsOf outs) = (vs.map Value.allocations).sum
  nextCell : s'.nextCell = s.nextCell + vs.countP Value.isBoxed
  issued : s'.pins.issued = s.pins.issued + vs.countP Value.isCallable
  outstanding : s'.ledger.outstanding = s.ledger.outstanding + ((vs.map Value.allocations).sum : Nat)
  total : s'.ledger.total = s.ledger.total + (vs.map Value.allocations).sum
  overdrawn : s'.ledger.overdrawn = s.ledger.overdrawn

/-! ## One value -/

/-- A value that needs no cell changes nothing. -/
theorem packed_bare {out : Outbound} (packs : s.Packs v out) (none : out.owned? = none)
    (small : v.allocations = 0) (plain : v.isCallable = false) : s.Packed [v] [out] s := by
  have slots : slotsOf [out] = [.none] := by rw [slotsOf, List.map_singleton, none]
  have boxed : v.isBoxed = false := by simp [Value.isBoxed, small]
  have other : ∀ k, .owned k ∉ [out] := fun k there => by
    obtain rfl := List.mem_singleton.mp there
    cases none
  exact {
    id := rfl, machine := rfl, isOpen := rfl, active := rfl, anchors := rfl, handles := rfl
    values := .cons packs .nil
    boxes := by simp [slots, boxed, List.reduceOption]
    unused := fun k there => absurd there (other k)
    cells := fun _ _ => rfl
    fresh := by simp [slots, plain, handlesOf, cellsOf]
    unpinned := by simp [slots, handlesOf, cellsOf]
    pins := fun _ _ => rfl
    unanchored := by simp [slots, anchorsOf, cellsOf]
    weight := by simp [slots, small, weightOf, cellsOf]
    nextCell := by simp [boxed]
    issued := by simp [plain]
    outstanding := by simp [small]
    total := by simp [small]
    overdrawn := rfl }

/-- A value that is copied, or pinned just before, is put into the next cell. -/
theorem packed_box (numbered : s.Numbered) {c : Cell} {pins : Registry CallableId}
    (packs : ({ s with pins }.stored c).Packs v (.owned s.nextCell))
    (bare : c.anchor? = none) (weight : v.allocations = c.weight)
    (issued : pins.issued = s.pins.issued + [v].countP Value.isCallable)
    (fresh : c.handle?.toList.map Handle.number
      = List.range' (s.pins.issued + 1) ([v].countP Value.isCallable))
    (others : ∀ h, c.handle? ≠ some h → pins.get? h = s.pins.get? h) :
    s.Packed [v] [.owned s.nextCell] ({ s with pins }.stored c) := by
  have boxed : v.isBoxed = true := by
    cases c <;> simp [Value.isBoxed, weight, Cell.weight]
  have own : ∀ k, .owned k ∈ [Outbound.owned s.nextCell] ↔ k = s.nextCell := fun k => by simp
  have cells : ({ s with pins }.stored c).cellsOf (slotsOf [.owned s.nextCell]) = [c] := by
    change ([some s.nextCell].filterMap fun d => d.bind ({ s with pins }.stored c).cell?) = [c]
    rw [List.filterMap_cons, Option.bind_some, cell?_stored_self (s := { s with pins })]
    rfl
  have mine : ({ s with pins }.stored c).handlesOf (slotsOf [.owned s.nextCell])
      = c.handle?.toList := by
    rw [handlesOf, cells, List.filterMap_cons]
    cases c.handle? <;> rfl
  exact {
    id := rfl, machine := rfl, isOpen := rfl, active := rfl, anchors := rfl, handles := rfl
    values := .cons packs .nil
    boxes := by simp [slotsOf, Outbound.owned?, boxed, List.reduceOption]
    unused := fun k here => (own k).mp here ▸ numbered.unused (Nat.le_refl _)
    cells := fun k other => cell?_stored_of_ne (s := { s with pins }) fun here =>
      other ((own k).mpr here)
    fresh := by rw [mine, fresh]
    unpinned := fun h hh => by
      rw [mine] at hh
      refine numbered.unpinned ?_
      have : h.number ∈ List.range' (s.pins.issued + 1) ([v].countP Value.isCallable) :=
        fresh ▸ List.mem_map_of_mem hh
      rw [List.mem_range'_1] at this
      omega
    pins := fun h hh => by
      rw [mine] at hh
      exact others h fun same => hh (by simp [same])
    unanchored := by rw [anchorsOf, cells, List.filterMap_cons, bare]; rfl
    weight := by simp [weightOf, cells, weight]
    nextCell := by simp [stored, boxed]
    issued := issued
    outstanding := by simp [stored, weight]
    total := by simp [stored, weight, Ledger.acquire]
    overdrawn := rfl }

/-- A value of the session is made ready. -/
theorem pack_packed (numbered : s.Numbered) (own : s.Owns v) :
    ∃ out s₁, (pack v).run.run s = (.ok out, s₁) ∧ s.Packed [v] [out] s₁ := by
  have borrowed : ∀ r : Ref, r.session = s.id → (borrow r).run.run s = (.ok (.lent r.cell), s) := by
    intro r mine
    rw [borrow, try_get_bind, if_pos mine]
    rfl
  -- the cell of a copied value, while the pins are what they were
  have copied : ∀ c : Cell, (s.stored c).Packs v (.owned s.nextCell) → c.anchor? = none →
      c.handle? = none → v.allocations = c.weight → v.isCallable = false →
      s.Packed [v] [.owned s.nextCell] (s.stored c) := fun c packs bare unpinned weight plain =>
    @packed_box s v numbered c s.pins packs bare weight (by simp [plain])
      (by simp [plain, unpinned]) fun _ _ => rfl
  cases v with
  | nil => exact ⟨.nil, s, rfl, packed_bare rfl rfl rfl rfl⟩
  | reference r | function r =>
    exact ⟨_, s, borrowed r (own r rfl), packed_bare rfl rfl rfl rfl⟩
  | number y =>
    exact ⟨_, _, rfl, copied (.number y) ⟨_, rfl, cell?_stored_self _⟩ rfl rfl rfl rfl⟩
  | boolean b =>
    exact ⟨_, _, rfl, copied (.boolean b) ⟨_, rfl, cell?_stored_self _⟩ rfl rfl rfl rfl⟩
  | string text =>
    exact ⟨_, _, rfl, copied (.string text.toUTF8) ⟨_, rfl, cell?_stored_self _⟩ rfl rfl rfl rfl⟩
  | callable f =>
    have pinned : (s.pins.pin f).2.get? s.pins.next = some f := by
      rw [Registry.get?_pin, if_pos rfl]
    refine ⟨_, _, rfl, @packed_box s _ numbered (.pinned s.pins.next) (s.pins.pin f).2
      ⟨_, _, rfl, cell?_stored_self (s := { s with pins := (s.pins.pin f).2 }) _, pinned⟩ rfl rfl
      rfl rfl fun h other => ?_⟩
    rw [Registry.get?_pin, if_neg fun same => other (congrArg some same.symm)]

/-! ## Lists of values -/

namespace Packed

theorem refl (s : Session) : s.Packed [] [] s where
  id := rfl
  machine := rfl
  isOpen := rfl
  active := rfl
  anchors := rfl
  handles := rfl
  values := .nil
  boxes := rfl
  unused := nofun
  cells := fun _ _ => rfl
  fresh := rfl
  unpinned := nofun
  pins := fun _ _ => rfl
  unanchored := rfl
  weight := rfl
  nextCell := rfl
  issued := rfl
  outstanding := (Int.add_zero _).symm
  total := rfl
  overdrawn := rfl

/-- The cells of a list have numbers from the next one on. -/
theorem bounds (h : s.Packed vs outs s') (here : .owned k ∈ outs) :
    s.nextCell ≤ k ∧ k < s'.nextCell := by
  have there : k ∈ (slotsOf outs).reduceOption :=
    List.reduceOption_mem_iff.mpr (mem_slotsOf.mpr here)
  rw [h.boxes, List.mem_range'_1] at there
  rwa [h.nextCell]

/-- The handles of a list have numbers from the next one on. -/
theorem issuing (h : s.Packed vs outs s') {p : Handle} (here : p ∈ s'.handlesOf (slotsOf outs)) :
    s.pins.issued < p.number ∧ p.number ≤ s'.pins.issued := by
  have there : p.number ∈ (s'.handlesOf (slotsOf outs)).map Handle.number :=
    List.mem_map_of_mem here
  rw [h.fresh, List.mem_range'_1] at there
  rw [h.issued]
  omega

/-- No two values are put into one cell. -/
theorem apart (h : s.Packed vs outs s') : Apart (slotsOf outs) :=
  apart_iff_nodup.mpr (h.boxes ▸ List.nodup_range')

theorem numbered (h : s.Packed vs outs s') (numbered : s.Numbered) : s'.Numbered where
  cells k c hc := by
    by_cases here : .owned k ∈ outs
    · exact (h.bounds here).2
    · rw [h.cells k here] at hc
      rw [h.nextCell]
      exact Nat.lt_add_right _ (numbered.cells k c hc)
  pins p f hf := by
    by_cases here : p ∈ s'.handlesOf (slotsOf outs)
    · exact (h.issuing here).2
    · rw [h.pins p here] at hf
      rw [h.issued]
      exact Nat.le_add_right_of_le (numbered.pins p f hf)

/-- What carries a value stays when others are made ready. -/
theorem stays (h : s.Packed vs outs s') {out : Outbound} (packs : s.Packs v out) :
    s'.Packs v out := by
  have old : ∀ k c, s.cell? k = some c → s'.cell? k = some c := fun k c hc =>
    (h.cells k fun here => Option.some_ne_none c (hc.symm.trans (h.unused k here))).trans hc
  cases v with
  | nil | reference | function => exact packs
  | callable f =>
    obtain ⟨k, p, rfl, hk, hp⟩ := packs
    exact ⟨k, p, rfl, old k _ hk, (h.pins p fun here =>
      Option.some_ne_none f (hp.symm.trans (h.unpinned p here))).trans hp⟩
  | number | boolean | string =>
    obtain ⟨k, rfl, hk⟩ := packs
    exact ⟨k, rfl, old k _ hk⟩

/-- A list is made ready after another one. -/
theorem append (first : s.Packed us os s₁) (rest : s₁.Packed vs outs s') :
    s.Packed (us ++ vs) (os ++ outs) s' := by
  have slots : slotsOf (os ++ outs) = slotsOf os ++ slotsOf outs := List.map_append
  have kept : s'.cellsOf (slotsOf os) = s₁.cellsOf (slotsOf os) :=
    cellsOf_congr fun c hc => by
      cases c with
      | none => rfl
      | some k =>
        have below := (first.bounds (mem_slotsOf.mp hc)).2
        exact rest.cells k fun here => absurd (rest.bounds here).1 (Nat.not_le.mpr below)
  have cells : s'.cellsOf (slotsOf (os ++ outs))
      = s₁.cellsOf (slotsOf os) ++ s'.cellsOf (slotsOf outs) := by
    rw [slots, cellsOf_append, kept]
  have pinned : s'.handlesOf (slotsOf (os ++ outs))
      = s₁.handlesOf (slotsOf os) ++ s'.handlesOf (slotsOf outs) := by
    rw [handlesOf, cells, List.filterMap_append, handlesOf, handlesOf]
  have weight : s'.weightOf (slotsOf (os ++ outs))
      = s₁.weightOf (slotsOf os) + s'.weightOf (slotsOf outs) := by
    rw [weightOf, cells, List.map_append, List.sum_append, weightOf, weightOf]
  have both : ((us ++ vs).map Value.allocations).sum
      = (us.map Value.allocations).sum + (vs.map Value.allocations).sum := by
    rw [List.map_append, List.sum_append]
  exact {
    id := rest.id.trans first.id
    machine := rest.machine.trans first.machine
    isOpen := rest.isOpen.trans first.isOpen
    active := rest.active.trans first.active
    anchors := rest.anchors.trans first.anchors
    handles := rest.handles.trans first.handles
    values := List.rel_append (first.values.imp fun _ _ => rest.stays) rest.values
    boxes := by
      rw [slots, List.reduceOption_append, first.boxes, rest.boxes, first.nextCell,
        List.range'_append_1, List.countP_append]
    unused := fun k here => by
      obtain mine | other := List.mem_append.mp here
      · exact first.unused k mine
      · by_cases mine : .owned k ∈ os
        · exact first.unused k mine
        · rw [← first.cells k mine]
          exact rest.unused k other
    cells := fun k apart => by
      rw [List.mem_append, not_or] at apart
      rw [rest.cells k apart.2, first.cells k apart.1]
    fresh := by
      rw [pinned, List.map_append, first.fresh, rest.fresh, first.issued, Nat.add_right_comm,
        List.range'_append_1, List.countP_append]
    unpinned := fun p here => by
      rw [pinned] at here
      by_cases mine : p ∈ s₁.handlesOf (slotsOf os)
      · exact first.unpinned p mine
      · rw [← first.pins p mine]
        exact rest.unpinned p ((List.mem_append.mp here).resolve_left mine)
    pins := fun p apart => by
      rw [pinned, List.mem_append, not_or] at apart
      rw [rest.pins p apart.2, first.pins p apart.1]
    unanchored := by
      have mine := first.unanchored
      have others := rest.unanchored
      rw [anchorsOf] at mine others ⊢
      rw [cells, List.filterMap_append, mine, others, List.append_nil]
    weight := by rw [weight, first.weight, rest.weight, both]
    nextCell := by rw [rest.nextCell, first.nextCell, List.countP_append, Nat.add_assoc]
    issued := by rw [rest.issued, first.issued, List.countP_append, Nat.add_assoc]
    outstanding := by
      rw [rest.outstanding, first.outstanding, both]
      omega
    total := by rw [rest.total, first.total, both, Nat.add_assoc]
    overdrawn := rest.overdrawn.trans first.overdrawn }

end Packed

/-- The values that follow in a list are made ready if all are of the session. -/
theorem packFrom_packed (numbered : s.Numbered) (index : Nat) (done : List Outbound)
    (own : ∀ v ∈ vs, s.Owns v) :
    ∃ outs s', (packFrom index done vs).run.run s = (.ok (done.reverse ++ outs), s')
      ∧ s.Packed vs outs s' := by
  induction vs generalizing s index done with
  | nil => exact ⟨[], s, by rw [List.append_nil]; rfl, .refl s⟩
  | cons v vs ih =>
    rw [List.forall_mem_cons] at own
    obtain ⟨out, s₁, run, first⟩ := pack_packed numbered own.1
    obtain ⟨outs, s', run', rest⟩ := ih (first.numbered numbered) (index + 1) (out :: done)
      fun u hu r hr => (own.2 u hu r hr).trans first.id.symm
    refine ⟨out :: outs, s', ?_, first.append rest⟩
    rw [packFrom, try_bind_ok (try_tryCatch_ok run), run', List.reverse_cons, List.append_assoc,
      List.singleton_append]

/-- A list that goes on with a value of another session is not made ready: what was made ready before
goes, and the values behind are not looked at. -/
theorem packFrom_refused (numbered : s.Numbered) (index : Nat) (done : List Outbound)
    (own : ∀ u ∈ us, s.Owns u) (hv : v.ref? = some r)
    (foreign : r.session ≠ s.id) :
    ∃ outs s₁, (packFrom index done us).run.run s = (.ok (done.reverse ++ outs), s₁)
      ∧ s.Packed us outs s₁
      ∧ (packFrom index done (us ++ v :: vs)).run.run s
        = (.error ((Failure.wrongSession s.id r.session).ofItem (index + us.length)),
          ((abandon (done.reverse ++ outs)).run s₁).2) := by
  induction us generalizing s index done with
  | nil =>
    refine ⟨[], s, by rw [List.append_nil]; rfl, .refl s, ?_⟩
    rw [List.nil_append, packFrom, List.append_nil]
    refine try_bind_error ?_
    rw [ExceptT.run_tryCatch, stateM_run_bind, pack_foreign hv foreign]
    rfl
  | cons u us ih =>
    rw [List.forall_mem_cons] at own
    obtain ⟨out, s₁, run, first⟩ := pack_packed numbered own.1
    rw [← first.id] at foreign
    obtain ⟨outs, s', made, rest, refused⟩ := ih (first.numbered numbered) (index + 1) (out :: done)
      (fun w hw q hq => (own.2 w hw q hq).trans first.id.symm) foreign
    rw [List.reverse_cons, List.append_assoc, List.singleton_append] at made refused
    refine ⟨out :: outs, s', ?_, first.append rest, ?_⟩
    · rw [packFrom, try_bind_ok (try_tryCatch_ok run), made]
    · rw [List.cons_append, packFrom, try_bind_ok (try_tryCatch_ok run), refused, first.id,
        List.length_cons, Nat.add_assoc, Nat.add_comm 1]

/-! ## Lists that go -/

/-- What a list owns is released, and what was lent to it stays. -/
theorem abandon_eq (outs : List Outbound) (s : Session) :
    (abandon outs).run s = (freeAll (slotsOf outs)).run s := by
  induction outs generalizing s with
  | nil => rfl
  | cons out outs ih =>
    cases out with
    | nil | lent => exact ih s
    | owned k => exact ih ((free k).run s).2

namespace Packed

/-- When a list goes, whatever the session has come to, the cells, the pins and the allocations of
the list go, and nothing else. -/
theorem dropped (h : s.Packed vs outs s₁)
    (still : ∀ k, .owned k ∈ outs → s₂.cell? k = s₁.cell? k) :
    s₂.Freed (slotsOf outs) ((abandon outs).run s₂).2
      ∧ (∀ p, ((abandon outs).run s₂).2.pins.get? p
        = if p ∈ s₁.handlesOf (slotsOf outs) then none else s₂.pins.get? p)
      ∧ (∀ a, ((abandon outs).run s₂).2.anchors.get? a = s₂.anchors.get? a)
      ∧ ((abandon outs).run s₂).2.ledger.outstanding + ((vs.map Value.allocations).sum : Nat)
        = s₂.ledger.outstanding
      ∧ ∀ k c, s.cell? k = some c → ((abandon outs).run s₂).2.cell? k = s₂.cell? k := by
  have freed := freed_freeAll s₂ h.apart
  rw [← abandon_eq] at freed
  have cells : s₂.cellsOf (slotsOf outs) = s₁.cellsOf (slotsOf outs) :=
    cellsOf_congr fun c hc => by
      cases c with
      | none => rfl
      | some k => exact still k (mem_slotsOf.mp hc)
  have handles : s₂.handlesOf (slotsOf outs) = s₁.handlesOf (slotsOf outs) := by
    rw [handlesOf, cells, handlesOf]
  have none : s₂.anchorsOf (slotsOf outs) = [] := by
    rw [anchorsOf, cells, ← anchorsOf, h.unanchored]
  have weight : s₂.weightOf (slotsOf outs) = (vs.map Value.allocations).sum := by
    rw [weightOf, cells, ← weightOf, h.weight]
  refine ⟨freed, fun p => by rw [freed.pins, handles], fun a => ?_, ?_, fun k c hc => ?_⟩
  · rw [freed.anchors, none, if_neg fun h => List.not_mem_nil h.2]
  · rw [← weight]
    exact freed.outstanding
  · rw [freed.cells, if_neg]
    intro here
    exact Option.some_ne_none c (hc.symm.trans (h.unused k (mem_slotsOf.mp here)))

/-- A list that goes at once leaves nothing behind. -/
theorem undone (h : s.Packed vs outs s₁) :
    (∀ k, ((abandon outs).run s₁).2.cell? k = s.cell? k)
      ∧ (∀ p, ((abandon outs).run s₁).2.pins.get? p = s.pins.get? p)
      ∧ ((abandon outs).run s₁).2.ledger.outstanding = s.ledger.outstanding := by
  obtain ⟨freed, pins, -, weight, -⟩ := h.dropped fun _ _ => rfl
  refine ⟨fun k => ?_, fun p => ?_, ?_⟩
  · rw [freed.cells]
    split
    · rename_i here
      exact (h.unused k (mem_slotsOf.mp here)).symm
    · rename_i other
      exact h.cells k fun here => other (mem_slotsOf.mpr here)
  · rw [pins]
    split
    · rename_i here
      exact (h.unpinned p here).symm
    · rename_i other
      exact h.pins p other
  · have made := h.outstanding
    omega

end Packed

end Session

namespace Host.World

/-- The numbers in use in any session of any world that a program comes to were given out. -/
theorem numbered_run (program : List Step) (whims : List Whim) (n : Nat) {id : SessionId}
    {s : Session} (hs : ((start program whims).run n).sessions[id]? = some s) : s.Numbered := by
  have tidy := ((books_run program whims n).1.tidy id s hs).2
  exact ⟨fun k c hc => tidy.fresh k (mem_keys.mpr ⟨c, hc⟩),
    fun h f hf => tidy.issued h.number (mem_keys.mpr ⟨f, hf⟩)⟩

end Host.World

namespace Session

/-- A list of values is made ready, or nothing is.  It is if all values that belong to a session
belong to this one; and when it goes, whatever has become of the session, its cells, pins and
allocations go, and what was there before the list stays.  Otherwise the first value of another
session is named, those behind it are not looked at, and cells, pins and allocations are what they
were. -/
theorem packAll_all (numbered : s.Numbered) (vs : List Value) :
    ((∀ v ∈ vs, s.Owns v) ∧ ∃ outs s₁, (packAll vs).run.run s = (.ok outs, s₁)
      ∧ s.Packed vs outs s₁
      ∧ (∀ s₂, (∀ k, .owned k ∈ outs → s₂.cell? k = s₁.cell? k) →
        s₂.Freed (slotsOf outs) ((abandon outs).run s₂).2
        ∧ (∀ p, ((abandon outs).run s₂).2.pins.get? p
          = if p ∈ s₁.handlesOf (slotsOf outs) then none else s₂.pins.get? p)
        ∧ (∀ a, ((abandon outs).run s₂).2.anchors.get? a = s₂.anchors.get? a)
        ∧ ((abandon outs).run s₂).2.ledger.outstanding + ((vs.map Value.allocations).sum : Nat)
          = s₂.ledger.outstanding
        ∧ ∀ k c, s.cell? k = some c → ((abandon outs).run s₂).2.cell? k = s₂.cell? k)
      ∧ (∀ k, ((abandon outs).run s₁).2.cell? k = s.cell? k)
      ∧ (∀ p, ((abandon outs).run s₁).2.pins.get? p = s.pins.get? p)
      ∧ ((abandon outs).run s₁).2.ledger.outstanding = s.ledger.outstanding)
    ∨ ∃ us v ws r s', vs = us ++ v :: ws ∧ (∀ u ∈ us, s.Owns u) ∧ v.ref? = some r
      ∧ r.session ≠ s.id
      ∧ (packAll vs).run.run s = (.error ((Failure.wrongSession s.id r.session).ofItem us.length), s')
      ∧ (∃ outs s₁, (packAll us).run.run s = (.ok outs, s₁) ∧ s.Packed us outs s₁
        ∧ s' = ((abandon outs).run s₁).2)
      ∧ (∀ k, s'.cell? k = s.cell? k) ∧ (∀ p, s'.pins.get? p = s.pins.get? p)
      ∧ s'.ledger.outstanding = s.ledger.outstanding := by
  obtain own | ⟨us, ws, v, r, rfl, own, hv, foreign⟩ := owns_cases s vs
  · obtain ⟨outs, s₁, run, packed⟩ := packFrom_packed numbered 0 [] own
    exact .inl ⟨own, outs, s₁, run, packed, fun s₂ still => packed.dropped still, packed.undone⟩
  · obtain ⟨outs, s₁, made, packed, refused⟩ :=
      @packFrom_refused s us ws v r numbered 0 [] own hv foreign
    rw [Nat.zero_add] at refused
    exact .inr ⟨us, v, ws, r, _, rfl, own, hv, foreign, refused, ⟨outs, s₁, made, packed, rfl⟩,
      packed.undone⟩

/-- A callable that is sent twice, a string and nil, in a new session. -/
theorem packAll_all_twice :
    (start 1 .standard).Numbered
      ∧ ∃ outs s₁, (packAll [.callable 7, .callable 7, .string "a", .nil]).run.run
          (start 1 .standard) = (.ok outs, s₁)
        ∧ (slotsOf outs).reduceOption = [0, 1, 2]
        ∧ (s₁.handlesOf (slotsOf outs)).map Handle.number = [1, 2]
        ∧ s₁.ledger.outstanding = 4 ∧ ((abandon outs).run s₁).2.ledger.outstanding = 0 := by
  have numbered : (start 1 .standard).Numbered := by
    constructor
    · intro k c hc
      simp [start, cell?] at hc
    · intro h f hf
      simp [start] at hf
  refine ⟨numbered, ?_⟩
  obtain ⟨-, outs, s₁, run, packed, -, -, -, gone⟩ | ⟨us, v, ws, r, s', list, -, hv, -⟩ :=
    packAll_all numbered [.callable 7, .callable 7, .string "a", .nil]
  · exact ⟨outs, s₁, run, packed.boxes, packed.fresh, packed.outstanding, gone⟩
  · have there : v ∈ [Value.callable 7, .callable 7, .string "a", .nil] := by simp [list]
    simp only [List.mem_cons, List.not_mem_nil, or_false] at there
    obtain rfl | rfl | rfl | rfl := there <;> cases hv

end Session

end ScriptBridge

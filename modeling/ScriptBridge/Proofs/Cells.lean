import ScriptBridge.Proofs.Sound

/-!
# ScriptBridge.Proofs.Cells

Cells come and go.  A new cell takes over the pin or the anchor it is to own; a cell that is
withdrawn gives its pin or its anchor back, and leaves its weight to be taken off the ledger.

Main facts:

* `Sound.store` — a new cell has the holder it is made for;
* `Sound.withdraw` — what the holder of a cell holds when the cell is gone.
-/

namespace ScriptBridge

theorem stateM_run_modifyGet {S α : Type} (f : S → α × S) (s : S) :
    (modifyGet f : StateM S α).run s = f s := rfl

namespace Session

variable {s : Session} {e : Env} {m : Memory} {H : Multiset Holding}

/-! ## New cells -/

/-- What a new cell takes over: the pin or the anchor it is to own. -/
def TakesOver (id : SessionId) (c : Cell) (K : Multiset Holding) : Prop :=
  match c with
  | .pinned handle => ∃ v, K = {.pin id handle v}
  | .function anchor _ => ∃ v, K = {.slot id anchor v} ∧ c.Fits v
  | .object anchor _ => ∃ v, K = {.slot id anchor v} ∧ c.Fits v
  | _ => K = 0

namespace TakesOver

variable {id : SessionId} {c : Cell} {K : Multiset Holding}

theorem tallies (h : TakesOver id c K) :
    tally (Holding.cells id) K = 0 ∧ tally (Holding.weight id) K = 0
      ∧ tally (Holding.pins id) K = c.pins ∧ tally (Holding.slots id) K = c.anchors
      ∧ tally Holding.callables K = 0 ∧ tally Holding.debts K = 0 := by
  cases c with
  | pinned handle =>
    obtain ⟨v, rfl⟩ := h
    simp [Holding.cells, Holding.weight, Holding.pins, Holding.slots, Holding.callables,
      Holding.debts, Cell.pins, Cell.anchors, Cell.handle?, Cell.anchor?]
  | function anchor native =>
    obtain ⟨v, rfl, _⟩ := h
    simp [Holding.cells, Holding.weight, Holding.pins, Holding.slots, Holding.callables,
      Holding.debts, Cell.pins, Cell.anchors, Cell.handle?, Cell.anchor?]
  | object anchor kind =>
    obtain ⟨v, rfl, _⟩ := h
    simp [Holding.cells, Holding.weight, Holding.pins, Holding.slots, Holding.callables,
      Holding.debts, Cell.pins, Cell.anchors, Cell.handle?, Cell.anchor?]
  | _ =>
    obtain rfl := h
    simp [Cell.pins, Cell.anchors, Cell.handle?, Cell.anchor?]

/-- The anchor that is taken over holds a value of the right kind. -/
theorem anchor {a : Anchor} (h : TakesOver id c K) (ha : c.anchor? = some a) :
    ∃ v, .slot id a v ∈ K ∧ c.Fits v := by
  cases c with
  | function anchor native =>
    obtain ⟨v, rfl, hv⟩ := h
    obtain rfl := Option.some.inj ha
    exact ⟨v, Multiset.mem_singleton_self _, hv⟩
  | object anchor kind =>
    obtain ⟨v, rfl, hv⟩ := h
    obtain rfl := Option.some.inj ha
    exact ⟨v, Multiset.mem_singleton_self _, hv⟩
  | _ => exact absurd ha (by simp [Cell.anchor?])

end TakesOver

/-- The session with one cell more. -/
def stored (s : Session) (c : Cell) : Session :=
  { s with
    cells := s.cells.insert s.nextCell c
    nextCell := s.nextCell + 1
    ledger := s.ledger.acquire c.weight }

@[simp] theorem store_run (c : Cell) (s : Session) :
    (store c).run s = (s.nextCell, s.stored c) := rfl

theorem cell?_stored_self (c : Cell) : (s.stored c).cell? s.nextCell = some c := by
  simp [cell?, stored]

theorem cell?_stored_of_ne {c : Cell} {cell : CellId} (h : cell ≠ s.nextCell) :
    (s.stored c).cell? cell = s.cell? cell := getElem?_insert_of_ne h

/-- Sums over cells have one summand more when there is one cell more. -/
theorem sum_stored {M : Type} [AddCommMonoid M] (f : Cell → M) {c : Cell}
    (fresh : s.cell? s.nextCell = none) :
    ((entries (s.stored c).cells).map fun e => f e.2).sum
      = f c + ((entries s.cells).map fun e => f e.2).sum := by
  rw [stored, entries_insert fresh, Multiset.map_cons, Multiset.sum_cons]

section

variable {K : Multiset Holding} {c : Cell} {h : Holding}

theorem Booked.store (hs : s.Booked (K + H)) (fresh : s.cell? s.nextCell = none)
    (takes : TakesOver s.id c K) (hcells : h.cells s.id = {s.nextCell})
    (hweight : h.weight s.id = 0) : Booked ({h} + H) (s.stored c) := by
  obtain ⟨kcells, kweight, -⟩ := takes.tallies
  constructor
  · change keys (s.cells.insert s.nextCell c) = tally (Holding.cells s.id) ({h} + H)
    rw [keys_insert fresh, hs.cells, tally_add, tally_add, tally_singleton, hcells, kcells,
      zero_add, Multiset.singleton_add]
  · intro cell hcell
    change cell ∈ keys (s.cells.insert s.nextCell c) at hcell
    rw [keys_insert fresh, Multiset.mem_cons] at hcell
    obtain rfl | hcell := hcell
    · exact Nat.lt_succ_self _
    · exact Nat.lt_succ_of_lt (hs.fresh cell hcell)
  · have balance := hs.ledger
    rw [weigh, sum_stored Cell.weight fresh]
    simp only [stored, Ledger.outstanding_acquire, tally_add, tally_singleton, hweight,
      kweight, weigh] at balance ⊢
    omega
  · exact hs.solvent

theorem Moored.store (hs : s.Moored m (K + H)) (fresh : s.cell? s.nextCell = none)
    (takes : TakesOver s.id c K) (hslots : h.slots s.id = 0) (backs : ∀ k ∈ K, s.Backs k) :
    Moored m ({h} + H) (s.stored c) := by
  obtain ⟨-, -, -, kslots, -⟩ := takes.tallies
  refine ⟨hs.solid, ?_, ?_, hs.conserved, fun cell v hv => Nat.lt_succ_of_lt (hs.past cell v hv)⟩
  · intro ho cell c' a hcell ha
    by_cases hnew : cell = s.nextCell
    · subst hnew
      obtain rfl : c = c' := Option.some.inj ((cell?_stored_self c).symm.trans hcell)
      obtain ⟨v, hv, fits⟩ := takes.anchor ha
      refine ⟨v, (backs _ hv rfl).2 ho, fits, fun u hu => ?_⟩
      exact absurd (hs.past _ _ hu) (Nat.lt_irrefl _)
    · rw [cell?_stored_of_ne hnew] at hcell
      exact hs.moored ho cell c' a hcell ha
  · intro ho
    rw [moorings, sum_stored Cell.anchors fresh, tally_add, tally_singleton]
    change keys s.anchors.held = c.anchors + s.moorings + (h.slots s.id + _)
    rw [hs.anchored ho, tally_add, kslots, hslots, zero_add]
    ac_rfl

theorem Pinned.store (hs : s.Pinned (K + H)) (fresh : s.cell? s.nextCell = none)
    (takes : TakesOver s.id c K) (hpins : h.pins s.id = 0) : Pinned ({h} + H) (s.stored c) := by
  obtain ⟨-, -, kpins, -⟩ := takes.tallies
  refine ⟨?_, hs.lapsed, hs.issued⟩
  intro ho
  rw [cellPins, sum_stored Cell.pins fresh, tally_add, tally_singleton]
  change keys s.pins.live = c.pins + s.cellPins + s.userdataPins + (h.pins s.id + _)
  rw [hs.pins ho, tally_add, kpins, hpins, zero_add]
  ac_rfl

theorem Worthy.store (hs : s.Worthy e (K + H)) (takes : TakesOver s.id c K)
    (hcallables : h.callables = 0) (hdebts : h.debts = 0) : Worthy e ({h} + H) (s.stored c) := by
  obtain ⟨-, -, -, -, kcallables, kdebts⟩ := takes.tallies
  constructor
  · have balance := hs.worth
    rw [tally_add, tally_add, kcallables, kdebts, zero_add, zero_add] at balance
    rw [tally_add, tally_add, tally_singleton, tally_singleton, hcallables, hdebts, zero_add,
      zero_add]
    exact balance
  · intro f hf
    rw [tally_add, tally_singleton, hdebts, zero_add] at hf
    exact hs.payable f (by rw [tally_add]; exact Multiset.mem_add.mpr (Or.inr hf))

/-- A new cell is held as soon as it is made. -/
theorem Sound.store (hs : s.Sound e (K + H)) (takes : TakesOver s.id c K)
    (back : (s.stored c).Backs h)
    (holder : h = .inbound s.id s.nextCell ∨ ∃ v, h = .out s.id s.nextCell v) :
    Sound e ({h} + H) (s.stored c) := by
  have fresh : s.cell? s.nextCell = none := hs.next_fresh
  have hcells : h.cells s.id = {s.nextCell} := by
    obtain rfl | ⟨v, rfl⟩ := holder <;> simp [Holding.cells]
  have hweight : h.weight s.id = 0 := by obtain rfl | ⟨v, rfl⟩ := holder <;> rfl
  have hpins : h.pins s.id = 0 := by obtain rfl | ⟨v, rfl⟩ := holder <;> rfl
  have hslots : h.slots s.id = 0 := by obtain rfl | ⟨v, rfl⟩ := holder <;> rfl
  have hcallables : h.callables = 0 := by obtain rfl | ⟨v, rfl⟩ := holder <;> rfl
  have hdebts : h.debts = 0 := by obtain rfl | ⟨v, rfl⟩ := holder <;> rfl
  have hsession : h.session = s.id := by obtain rfl | ⟨v, rfl⟩ := holder <;> rfl
  refine {
    hs.toBooked.store fresh takes hcells hweight,
    hs.toMoored.store fresh takes hslots fun k hk =>
      hs.backs k (Multiset.mem_add.mpr (Or.inl hk)),
    hs.toPinned.store fresh takes hpins, hs.toWorthy.store takes hcallables hdebts with
    backs := ?_
    awake := hs.awake
    known := hs.known
    near := ?_ }
  · intro k hk
    rw [Multiset.singleton_add, Multiset.mem_cons] at hk
    obtain rfl | hk := hk
    · exact back
    · have mem : k ∈ K + H := Multiset.mem_add.mpr (Or.inr hk)
      refine (hs.backs k mem).stay rfl (fun ho => ho) ?_ (fun _ _ _ _ _ _ _ => rfl)
        (fun _ _ _ => rfl) (fun _ _ _ => rfl)
      intro cell hcell
      obtain ⟨c', hc'⟩ := hs.cell_exists mem hcell
      refine cell?_stored_of_ne ?_
      rintro rfl
      exact Option.some_ne_none c' (hc'.symm.trans fresh)
  · intro k hk
    rw [Multiset.singleton_add, Multiset.mem_cons] at hk
    obtain rfl | hk := hk
    · rw [hsession]
      exact hs.known
    · exact hs.near k (Multiset.mem_add.mpr (Or.inr hk))

end

/-! ## Cells that are withdrawn -/

/-- What a cell gives back when it is withdrawn: its weight, and the callable it pinned. -/
def leftover (s : Session) (c : Cell) : Multiset Holding :=
  {.due s.id c.weight} + (c.handle?.bind s.pins.get?).elim 0 fun f => {.callable f}

/-- The session without a cell. -/
def withdrawn (s : Session) (cell : CellId) (c : Cell) : Session :=
  { s with
    cells := s.cells.erase cell
    pins := match c.handle? with
      | some handle => (s.pins.release handle).2
      | none => s.pins
    anchors := match c.anchor? with
      | some anchor => if s.active.isSome then s.anchors.free anchor else s.anchors
      | none => s.anchors }

theorem withdraw_run {cell : CellId} {c : Cell} (h : s.cell? cell = some c) :
    (withdraw cell).run s = ((c.weight, c.handle?.bind s.pins.get?), s.withdrawn cell c) := by
  rw [withdraw, stateM_run_modifyGet, h]
  cases c with
  | function anchor native =>
    cases ha : s.active <;> simp [withdrawn, Cell.handle?, Cell.anchor?, ha]
  | object anchor kind =>
    cases ha : s.active <;> simp [withdrawn, Cell.handle?, Cell.anchor?, ha]
  | _ => rfl

theorem anchors_withdrawn_copied (cell : CellId) {c : Cell} (h : c.anchor? = none) :
    (s.withdrawn cell c).anchors = s.anchors := by
  simp only [withdrawn, h]

theorem anchors_withdrawn (cell : CellId) {c : Cell} {a : Anchor} (awake : s.active.isSome)
    (h : c.anchor? = some a) : (s.withdrawn cell c).anchors = s.anchors.free a := by
  simp only [withdrawn, h, if_pos awake]

theorem pins_withdrawn_unpinned (cell : CellId) {c : Cell} (h : c.handle? = none) :
    (s.withdrawn cell c).pins = s.pins := by
  simp only [withdrawn, h]

theorem pins_withdrawn (cell : CellId) {c : Cell} {handle : Handle} (h : c.handle? = some handle) :
    (s.withdrawn cell c).pins = (s.pins.release handle).2 := by
  simp only [withdrawn, h]

theorem withdraw_run_of_none {cell : CellId} (h : s.cell? cell = none) :
    (withdraw cell).run s = ((0, none), s) := by
  rw [withdraw, stateM_run_modifyGet, h]

section

variable {cell other : CellId} {c : Cell}

theorem cell?_withdrawn_of_ne (h : other ≠ cell) :
    (s.withdrawn cell c).cell? other = s.cell? other := getElem?_erase_of_ne h

theorem cell?_withdrawn_self : (s.withdrawn cell c).cell? cell = none :=
  getElem?_erase_self _ _

/-- A cell that is still there was there before. -/
theorem cell?_of_withdrawn {c' : Cell} (h : (s.withdrawn cell c).cell? other = some c') :
    s.cell? other = some c' := by
  rw [← h, cell?_withdrawn_of_ne]
  rintro rfl
  rw [cell?_withdrawn_self] at h
  cases h

theorem get?_anchors_withdrawn {a : Anchor} (h : a ∉ c.anchors) :
    (s.withdrawn cell c).anchors.get? a = s.anchors.get? a := by
  cases ha : c.anchor? with
  | none => simp [withdrawn, ha]
  | some anchor =>
    have apart : a ≠ anchor := by simpa [Cell.anchors, ha] using h
    cases hs : s.active <;> simp [withdrawn, ha, hs, Anchors.get?_free, apart]

theorem get?_pins_withdrawn {k : Handle} (h : k.number ∉ c.pins) :
    (s.withdrawn cell c).pins.get? k = s.pins.get? k := by
  cases hh : c.handle? with
  | none => simp [withdrawn, hh]
  | some handle =>
    have apart : k ≠ handle := by
      rintro rfl
      simp [Cell.pins, hh] at h
    simp [withdrawn, hh, Registry.get?_release, apart]

/-- Sums over cells have one summand less when a cell is gone. -/
theorem sum_withdrawn {M : Type} [AddCommMonoid M] (f : Cell → M) (h : s.cell? cell = some c) :
    ((entries s.cells).map fun e => f e.2).sum
      = f c + ((entries (s.withdrawn cell c).cells).map fun e => f e.2).sum := by
  rw [withdrawn, entries_erase h, Multiset.map_cons, Multiset.sum_cons]

theorem tallies_leftover :
    tally (Holding.cells s.id) (s.leftover c) = 0
      ∧ tally (Holding.weight s.id) (s.leftover c) = c.weight
      ∧ tally (Holding.pins s.id) (s.leftover c) = 0
      ∧ tally (Holding.slots s.id) (s.leftover c) = 0
      ∧ tally Holding.callables (s.leftover c) = (c.handle?.bind s.pins.get?).elim 0 ({·})
      ∧ tally Holding.debts (s.leftover c) = 0 := by
  cases hf : c.handle?.bind s.pins.get? <;>
    simp [leftover, hf, Holding.cells, Holding.weight, Holding.pins, Holding.slots,
      Holding.callables, Holding.debts]

theorem mem_leftover {k : Holding} (h : k ∈ s.leftover c) :
    k = .due s.id c.weight ∨ ∃ f, k = .callable f := by
  cases hf : c.handle?.bind s.pins.get? with
  | none => exact Or.inl (by simpa [leftover, hf] using h)
  | some f =>
    simp only [leftover, hf, Option.elim_some, Multiset.mem_add, Multiset.mem_singleton] at h
    exact h.imp_right fun h => ⟨f, h⟩

theorem Booked.withdraw (hs : s.Booked ({.cell s.id cell} + H)) (hc : s.cell? cell = some c) :
    Booked (s.leftover c + H) (s.withdrawn cell c) := by
  obtain ⟨left, due, -⟩ := tallies_leftover (s := s) (c := c)
  have split := keys_erase hc
  constructor
  · change keys (s.cells.erase cell) = tally (Holding.cells s.id) (s.leftover c + H)
    have whole := hs.cells
    rw [split, tally_add, tally_singleton] at whole
    rw [tally_add, left, zero_add]
    simpa [Holding.cells] using whole
  · intro other ho
    refine hs.fresh other ?_
    rw [split]
    exact Multiset.mem_cons_of_mem ho
  · have balance := hs.ledger
    rw [weigh, sum_withdrawn Cell.weight hc, tally_add, tally_singleton] at balance
    change s.ledger.outstanding
      = ((s.withdrawn cell c).weigh + tally (Holding.weight s.id) (s.leftover c + H) : Nat)
    rw [tally_add, due, weigh]
    simp only [Holding.weight] at balance
    omega
  · exact hs.solvent

/-- The anchor of a cell is neither another cell's nor any holding's. -/
theorem Moored.apart (hs : s.Moored m ({.cell s.id cell} + H)) (hc : s.cell? cell = some c)
    (ho : s.isOpen) :
    keys s.anchors.held = c.anchors + ((s.withdrawn cell c).moorings
        + tally (Holding.slots s.id) H)
      ∧ ∀ a ∈ (s.withdrawn cell c).moorings + tally (Holding.slots s.id) H, a ∉ c.anchors := by
  have whole : keys s.anchors.held = c.anchors + ((s.withdrawn cell c).moorings
      + tally (Holding.slots s.id) H) := by
    rw [hs.anchored ho, moorings, sum_withdrawn Cell.anchors hc, moorings, tally_add,
      tally_singleton]
    simp [Holding.slots, add_assoc]
  have once := nodup_keys s.anchors.held
  rw [whole] at once
  exact ⟨whole, fun a ha mine =>
    Multiset.disjoint_left.mp (Multiset.nodup_add.mp once).2.2 mine ha⟩

theorem Moored.withdraw (hs : s.Moored m ({.cell s.id cell} + H)) (hc : s.cell? cell = some c)
    (awake : s.active.isSome = s.isOpen) :
    Moored m (s.leftover c + H) (s.withdrawn cell c) := by
  obtain ⟨-, -, -, left, -⟩ := tallies_leftover (s := s) (c := c)
  have slots : tally (Holding.slots s.id) (s.leftover c + H) = tally (Holding.slots s.id) H := by
    rw [tally_add, left, zero_add]
  refine ⟨?_, ?_, ?_, ?_, hs.past⟩
  · intro a v hv
    by_cases mine : a ∈ c.anchors
    · refine hs.solid a v ?_
      cases ha : c.anchor? with
      | none => simp [Cell.anchors, ha] at mine
      | some anchor =>
        cases hact : s.active with
        | none => simpa [withdrawn, ha, hact] using hv
        | some t =>
          have same : a = anchor := by simpa [Cell.anchors, ha] using mine
          simp [withdrawn, ha, hact, Anchors.get?_free, same] at hv
    · rw [get?_anchors_withdrawn mine] at hv
      exact hs.solid a v hv
  · intro ho other c' a hother ha
    have apart : a ∉ c.anchors := (hs.apart hc ho).2 a <| Multiset.mem_add.mpr <| Or.inl <|
      mem_moorings hother (by simp [Cell.anchors, ha])
    rw [Moors, get?_anchors_withdrawn apart]
    exact hs.moored ho other c' a (cell?_of_withdrawn hother) ha
  · intro ho
    have whole := (hs.apart hc ho).1
    change keys (s.withdrawn cell c).anchors.held
      = (s.withdrawn cell c).moorings + tally (Holding.slots s.id) (s.leftover c + H)
    rw [slots]
    cases ha : c.anchor? with
    | none =>
      have none : c.anchors = 0 := by simp [Cell.anchors, ha]
      rw [none, zero_add] at whole
      simpa [withdrawn, ha] using whole
    | some anchor =>
      have single : c.anchors = {anchor} := by simp [Cell.anchors, ha]
      obtain ⟨v, held, -⟩ := hs.moored ho cell c anchor hc ha
      have freed : (s.withdrawn cell c).anchors = s.anchors.free anchor := by
        simp only [withdrawn, ha, awake]
        exact if_pos ho
      rw [keys_erase held, single, Multiset.singleton_add] at whole
      rw [freed]
      exact (Multiset.cons_inj_right anchor).mp whole
  · intro ho
    cases ha : c.anchor? with
    | none => simpa [withdrawn, ha] using hs.conserved ho
    | some anchor =>
      obtain ⟨v, held, -⟩ := hs.moored ho cell c anchor hc ha
      have freed : (s.withdrawn cell c).anchors = s.anchors.free anchor := by
        simp only [withdrawn, ha, awake]
        exact if_pos ho
      rw [freed]
      exact (hs.conserved ho).free held

/-- The handle of a cell is neither another cell's, nor a userdata's, nor any holding's. -/
theorem Pinned.apart (hs : s.Pinned ({.cell s.id cell} + H)) (hc : s.cell? cell = some c)
    (ho : s.isOpen) :
    keys s.pins.live = c.pins + ((s.withdrawn cell c).cellPins + s.userdataPins
        + tally (Holding.pins s.id) H)
      ∧ ∀ k ∈ (s.withdrawn cell c).cellPins + s.userdataPins + tally (Holding.pins s.id) H,
        k ∉ c.pins := by
  have whole : keys s.pins.live = c.pins + ((s.withdrawn cell c).cellPins + s.userdataPins
      + tally (Holding.pins s.id) H) := by
    rw [hs.pins ho, cellPins, sum_withdrawn Cell.pins hc, cellPins, tally_add, tally_singleton]
    simp only [Holding.pins]
    ac_rfl
  have once := nodup_keys s.pins.live
  rw [whole] at once
  exact ⟨whole, fun k hk mine =>
    Multiset.disjoint_left.mp (Multiset.nodup_add.mp once).2.2 mine hk⟩

theorem Pinned.withdraw (hs : s.Pinned ({.cell s.id cell} + H)) (hc : s.cell? cell = some c) :
    Pinned (s.leftover c + H) (s.withdrawn cell c) := by
  obtain ⟨-, -, left, -⟩ := tallies_leftover (s := s) (c := c)
  refine ⟨fun ho => ?_, fun closed => ?_, ?_⟩
  · have whole := (hs.apart hc ho).1
    change keys (s.withdrawn cell c).pins.live = (s.withdrawn cell c).cellPins + s.userdataPins
      + tally (Holding.pins s.id) (s.leftover c + H)
    rw [tally_add, left, zero_add]
    cases hh : c.handle? with
    | none =>
      have none : c.pins = 0 := by simp [Cell.pins, hh]
      rw [none, zero_add] at whole
      simpa [withdrawn, hh] using whole
    | some handle =>
      have single : c.pins = {handle.number} := by simp [Cell.pins, hh]
      have mine : handle.number ∈ keys s.pins.live := by
        rw [whole, single]
        simp
      obtain ⟨f, hf⟩ := mem_keys.mp mine
      rw [keys_erase hf, single, Multiset.singleton_add] at whole
      rw [withdrawn, hh]
      exact (Multiset.cons_inj_right handle.number).mp whole
  · cases hh : c.handle? with
    | none => simpa [withdrawn, hh] using hs.lapsed closed
    | some handle => simpa [withdrawn, hh, Registry.release] using hs.lapsed_erase closed
  · cases hh : c.handle? with
    | none => simpa [withdrawn, hh] using hs.issued
    | some handle =>
      intro k hk
      have lives : k ∈ keys (s.pins.live.erase handle.number) := by
        simpa [withdrawn, hh, Registry.release] using hk
      simpa [withdrawn, hh, Registry.release] using hs.issued k (mem_keys_erase lives)

theorem Worthy.withdraw (hs : s.Worthy e ({.cell s.id cell} + H)) :
    Worthy e (s.leftover c + H) (s.withdrawn cell c) := by
  obtain ⟨-, -, -, -, callables, debts⟩ := tallies_leftover (s := s) (c := c)
  have worth := hs.worth
  simp only [tally_add, tally_singleton, Holding.callables, Holding.debts, zero_add] at worth
  constructor
  · rw [tally_add, tally_add, callables, debts, zero_add, ← worth, pinned, pinned]
    cases hh : c.handle? with
    | none => simp [withdrawn, hh]
    | some handle =>
      simp only [withdrawn, hh, Registry.release, Registry.get?, Option.bind_some]
      cases hf : s.pins.live[handle.number]? with
      | none => simp [entries_erase_of_none hf]
      | some f => simp [entries_erase hf]
  · intro f hf
    rw [tally_add, debts, zero_add] at hf
    exact hs.payable f (by rw [tally_add]; exact Multiset.mem_add.mpr (Or.inr hf))

/-- What the holder of a cell holds when the cell is gone. -/
theorem Sound.withdraw (hs : s.Sound e ({.cell s.id cell} + H)) (hc : s.cell? cell = some c) :
    Sound e (s.leftover c + H) (s.withdrawn cell c) := by
  refine {
    hs.toBooked.withdraw hc, hs.toMoored.withdraw hc hs.awake, hs.toPinned.withdraw hc,
    hs.toWorthy.withdraw with
    backs := ?_
    awake := hs.awake
    known := hs.known
    near := ?_ }
  · intro k hk
    obtain hk | hk := Multiset.mem_add.mp hk
    · obtain rfl | ⟨f, rfl⟩ := mem_leftover hk <;> trivial
    · have apart : ∀ other ∈ k.cells s.id, other ≠ cell := by
        rintro other hother rfl
        rw [Multiset.singleton_add] at hs
        exact hs.cell_once (by simp [Holding.cells]) (mem_tally.mpr ⟨k, hk, hother⟩)
      refine (hs.backs k (Multiset.mem_add.mpr (Or.inr hk))).stay rfl (fun ho => ho) ?_ ?_ ?_ ?_
      · intro other hother
        exact cell?_withdrawn_of_ne (apart other hother)
      · intro ho other hother c' handle hc' hhandle
        refine get?_pins_withdrawn ((hs.toPinned.apart hc ho).2 _ ?_)
        refine Multiset.mem_add.mpr (Or.inl (Multiset.mem_add.mpr (Or.inl ?_)))
        have still := (cell?_withdrawn_of_ne (c := c) (apart other hother)).trans hc'
        exact mem_cellPins still (by simp [Cell.pins, hhandle])
      · intro ho handle hhandle
        refine get?_pins_withdrawn ((hs.toPinned.apart hc ho).2 _ ?_)
        exact Multiset.mem_add.mpr (Or.inr (mem_tally.mpr ⟨k, hk, hhandle⟩))
      · intro ho a ha
        refine get?_anchors_withdrawn ((hs.toMoored.apart hc ho).2 a ?_)
        exact Multiset.mem_add.mpr (Or.inr (mem_tally.mpr ⟨k, hk, ha⟩))
  · intro k hk
    obtain hk | hk := Multiset.mem_add.mp hk
    · obtain rfl | ⟨f, rfl⟩ := mem_leftover hk
      · exact hs.known
      · exact e.nobody
    · exact hs.near k (Multiset.mem_add.mpr (Or.inr hk))

/-- The session after a cell is withdrawn and its weight taken off. -/
def freed (s : Session) (cell : CellId) (c : Cell) : Session :=
  { s.withdrawn cell c with ledger := s.ledger.release c.weight }

theorem free_run (hc : s.cell? cell = some c) : (free cell).run s = ((), s.freed cell c) := by
  have run : (free cell).run s
      = ((), { ((withdraw cell).run s).2 with
          ledger := ((withdraw cell).run s).2.ledger.release ((withdraw cell).run s).1.1 }) := rfl
  rw [run, withdraw_run hc]
  rfl

/-- What the holder of a cell holds when the cell is released: an owner of the callable that it
pinned. -/
theorem Sound.free (hs : s.Sound e ({.cell s.id cell} + H)) (hc : s.cell? cell = some c) :
    Sound e (((c.handle?.bind s.pins.get?).elim 0 fun f => {.callable f}) + H)
      (s.freed cell c) := by
  have gone := hs.withdraw hc
  rw [leftover, add_assoc] at gone
  exact gone.settle

end

end Session

end ScriptBridge

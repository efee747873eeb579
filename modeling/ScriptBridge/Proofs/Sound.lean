import ScriptBridge.Proofs.Holding
import ScriptBridge.Proofs.Slots
import ScriptBridge.Session.Calls

/-!
# ScriptBridge.Proofs.Sound

When the books of a session are right.  `Session.Sound e H s` relates a session to an inventory of
everything that is held:

* every cell has exactly one holder, and the ledger shows the weight of the cells and of what is
  still to be taken off;
* while the session is open, every anchor is owned by exactly one cell, is not to spare, and still
  holds the value it was taken for;
* while the session is open, every pin is owned by exactly one cell, one userdata of the runtime
  or one holding;
* the owners of callables that the session and the inventory account for are those in `e.worth`,
  but for debts.

Main facts:

* `Sound.cell_once` — no cell has a second holder;
* `Sound.exchange` — the inventory may change hands;
* `Sound.acquire`, `Sound.settle` — the ledger follows, and is never overdrawn.
-/

namespace ScriptBridge

/-- Whether a value is not copied but held by reference. -/
def Script.Value.Solid : Script.Value → Prop
  | .nil | .int _ | .float _ | .bool _ | .str _ => False
  | _ => True

namespace Cell

/-- The anchor a cell owns. -/
def anchors (c : Cell) : Multiset Anchor := c.anchor?.elim 0 ({·})

/-- The handle a cell owns, by its number. -/
def pins (c : Cell) : Multiset Nat := c.handle?.elim 0 fun h => {h.number}

/-- Whether a value is of the kind that a reference cell says. -/
def Fits : Cell → Script.Value → Prop
  | .function _ _, v => v.kind = .function
  | .object _ kind, v => Session.anchorKind? v = some kind
  | _, _ => False

theorem Fits.solid {c : Cell} {v : Script.Value} (h : c.Fits v) : v.Solid := by
  cases c <;> cases v <;> simp_all [Fits, Script.Value.Solid, Script.Value.kind,
    Session.anchorKind?]

end Cell

namespace Session

/-- The script values that were seen under the anchors of cells. -/
abbrev Memory := CellId → Option Script.Value

/-- What is known of a session from outside. -/
structure Env where
  memory : Memory
  /-- The owners of callables that the session and the inventory account for. -/
  worth : Multiset CallableId
  /-- The sessions there are; zero, which is the number of none, is one of them. -/
  known : SessionId → Prop
  nobody : known 0

variable (s : Session)

/-- The weight of all cells. -/
def weigh : Nat := ((entries s.cells).map fun e => e.2.weight).sum

/-- The anchors that cells own. -/
def moorings : Multiset Anchor := ((entries s.cells).map fun e => e.2.anchors).sum

/-- The handles that cells own. -/
def cellPins : Multiset Nat := ((entries s.cells).map fun e => e.2.pins).sum

/-- The handles that userdata of the runtime own. -/
def userdataPins : Multiset Nat := (s.handles.map fun e => e.2.number : List Nat)

/-- The callables that are pinned. -/
def pinned : Multiset CallableId := (entries s.pins.live).map (·.2)

/-- Whether a cell carries a value to the runtime. -/
def Conveys (c : Cell) : Value → Prop
  | .number x => c = .number x
  | .boolean b => c = .boolean b
  | .string text => c = .string text.toUTF8
  | .callable id => ∃ h, c = .pinned h ∧ (s.isOpen → s.pins.get? h = some id)
  | _ => False

/-- What stands behind a holding. -/
def Backs : Holding → Prop
  | .ref r => r.session = s.id →
      (∃ c a, s.cell? r.cell = some c ∧ c.anchor? = some a) ∧ r = s.refTo r.cell
  | .out id cell v => id = s.id → ∃ c, s.cell? cell = some c ∧ s.Conveys c v
  | .inbound id cell => id = s.id → ∃ c, s.cell? cell = some c ∧ c.handle? = none
  | .slot id a v => id = s.id → v.Solid ∧ (s.isOpen → s.anchors.get? a = some v)
  | .entered id previous => id = s.id → s.isOpen → previous.isSome
  | .pin id h v => id = s.id → s.isOpen → ∀ u ∈ v, ∃ f, u = .callable f ∧ s.pins.get? h = some f
  | _ => True

/-- What an anchor holds for its cell: a value of the right kind, and the one that was seen
there. -/
def Moors (m : Memory) (cell : CellId) (c : Cell) (a : Anchor) : Prop :=
  ∃ v, s.anchors.get? a = some v ∧ c.Fits v ∧ ∀ u, m cell = some u → u = v

/-- Every cell has one holder, and the ledger shows what is outstanding. -/
structure Booked (H : Multiset Holding) (s : Session) : Prop where
  cells : keys s.cells = tally (Holding.cells s.id) H
  fresh : ∀ c ∈ keys s.cells, c < s.nextCell
  ledger : s.ledger.outstanding = (s.weigh + tally (Holding.weight s.id) H : Nat)
  solvent : s.ledger.overdrawn = false

/-- While the session is open, every anchor has one owner and is not to spare. -/
structure Moored (m : Memory) (H : Multiset Holding) (s : Session) : Prop where
  solid : ∀ a v, s.anchors.get? a = some v → v.Solid
  moored : s.isOpen → ∀ cell c a, s.cell? cell = some c → c.anchor? = some a → s.Moors m cell c a
  anchored : s.isOpen → keys s.anchors.held = s.moorings + tally (Holding.slots s.id) H
  conserved : s.isOpen → s.anchors.Conserved
  past : ∀ c v, m c = some v → c < s.nextCell

/-- While the session is open, every pin has one owner; then there are none. -/
structure Pinned (H : Multiset Holding) (s : Session) : Prop where
  pins : s.isOpen →
    keys s.pins.live = s.cellPins + s.userdataPins + tally (Holding.pins s.id) H
  lapsed : s.isOpen = false → keys s.pins.live = 0
  issued : ∀ k ∈ keys s.pins.live, k ≤ s.pins.issued

/-- The books of a session by itself are right, and what is held of it is backed. -/
structure Tidy (m : Memory) (H : Multiset Holding) (s : Session) : Prop
    extends Booked H s, Moored m H s, Pinned H s where
  backs : ∀ h ∈ H, s.Backs h
  awake : s.active.isSome = s.isOpen

/-- The owners of callables add up, but for debts; and what is owed is there. -/
structure Worthy (e : Env) (H : Multiset Holding) (s : Session) : Prop where
  worth : s.pinned + tally Holding.callables H = e.worth + tally Holding.debts H
  payable : ∀ c ∈ tally Holding.debts H, c ∈ e.worth

/-- The books of a session are right, and all that is held is held of known sessions. -/
structure Sound (e : Env) (H : Multiset Holding) (s : Session) : Prop
    extends Tidy e.memory H s, Worthy e H s where
  known : e.known s.id
  near : ∀ h ∈ H, e.known h.session

variable {s : Session} {e : Env} {H : Multiset Holding}

/-! ## What a sound session has -/

/-- A pin that is live is one of an open session. -/
theorem Pinned.isOpen_of_live {k : Nat} {f : CallableId} (hs : s.Pinned H)
    (hf : s.pins.live[k]? = some f) : s.isOpen = true := by
  by_contra closed
  have live : k ∈ keys s.pins.live := mem_keys.mpr ⟨f, hf⟩
  rw [hs.lapsed (Bool.eq_false_iff.mpr closed)] at live
  exact Multiset.notMem_zero k live

/-- A session that is closed has no pins to lose. -/
theorem Pinned.lapsed_erase {k : Nat} (hs : s.Pinned H) (closed : s.isOpen = false) :
    keys (s.pins.live.erase k) = 0 :=
  Multiset.eq_zero_of_forall_notMem fun j hj => by
    obtain ⟨f, hf⟩ := mem_keys.mp (mem_keys_erase hj)
    exact absurd (hs.isOpen_of_live hf) (Bool.eq_false_iff.mp closed)

theorem mem_moorings {cell : CellId} {c : Cell} {a : Anchor} (hc : s.cell? cell = some c)
    (ha : a ∈ c.anchors) : a ∈ s.moorings := by
  rw [moorings, entries_erase hc, Multiset.map_cons, Multiset.sum_cons]
  exact Multiset.mem_add.mpr (Or.inl ha)

theorem mem_cellPins {cell : CellId} {c : Cell} {k : Nat} (hc : s.cell? cell = some c)
    (hk : k ∈ c.pins) : k ∈ s.cellPins := by
  rw [cellPins, entries_erase hc, Multiset.map_cons, Multiset.sum_cons]
  exact Multiset.mem_add.mpr (Or.inl hk)

namespace Sound

/-- The holder of a cell is its only holder. -/
theorem cell_once {h : Holding} {cell : CellId} (hs : s.Sound e (h ::ₘ H))
    (hc : h.cells s.id = {cell}) : cell ∉ tally (Holding.cells s.id) H := by
  have hk : keys s.cells = cell ::ₘ tally (Holding.cells s.id) H := by
    rw [hs.cells, tally_cons, hc, Multiset.singleton_add]
  have hd := nodup_keys s.cells
  rw [hk, Multiset.nodup_cons] at hd
  exact hd.1

/-- A cell that is held exists. -/
theorem cell_exists {h : Holding} {cell : CellId} (hs : s.Sound e H) (hh : h ∈ H)
    (hc : cell ∈ h.cells s.id) : ∃ c, s.cell? cell = some c := by
  refine mem_keys.mp ?_
  rw [hs.cells]
  exact mem_tally.mpr ⟨h, hh, hc⟩

theorem next_fresh (hs : s.Sound e H) : s.cell? s.nextCell = none := by
  rw [Option.eq_none_iff_forall_ne_some]
  intro c hc
  exact absurd (hs.fresh _ (mem_keys.mpr ⟨c, hc⟩)) (Nat.lt_irrefl _)

/-- A handle of a cell of an open session is live. -/
theorem cell_pin_live {cell : CellId} {c : Cell} {h : Handle} (hs : s.Sound e H)
    (ho : s.isOpen) (hc : s.cell? cell = some c) (hh : c.handle? = some h) :
    h.number ∈ keys s.pins.live := by
  rw [hs.pins ho]
  refine Multiset.mem_add.mpr (Or.inl (Multiset.mem_add.mpr (Or.inl ?_)))
  exact mem_cellPins hc (by simp [Cell.pins, hh])

/-- The weight due is covered. -/
theorem covered (hs : s.Sound e H) :
    ((tally (Holding.weight s.id) H : Nat) : Int) ≤ s.ledger.outstanding := by
  rw [hs.ledger]
  omega

end Sound

/-! ## What stays behind a holding -/

theorem refTo_congr {s' : Session} {cell : CellId} (hid : s'.id = s.id)
    (hc : s'.cell? cell = s.cell? cell) : s'.refTo cell = s.refTo cell := by
  rw [refTo, refTo, hc, hid]

/-- A holding keeps what it stands for if its cells, the pins and its anchors stay. -/
theorem Backs.stay {s' : Session} {h : Holding} (hb : s.Backs h) (hid : s'.id = s.id)
    (ho : s'.isOpen → s.isOpen)
    (hc : ∀ cell ∈ h.cells s.id, s'.cell? cell = s.cell? cell)
    (hp : s'.isOpen → ∀ cell ∈ h.cells s.id, ∀ c k, s.cell? cell = some c → c.handle? = some k →
      s'.pins.get? k = s.pins.get? k)
    (hn : s'.isOpen → ∀ k : Handle, k.number ∈ h.pins s.id → s'.pins.get? k = s.pins.get? k)
    (ha : s'.isOpen → ∀ a ∈ h.slots s.id, s'.anchors.get? a = s.anchors.get? a) :
    s'.Backs h := by
  cases h with
  | ref r =>
    intro hr
    rw [hid] at hr
    have same := hc r.cell (by simp [Holding.cells, hr])
    obtain ⟨cell, self⟩ := hb hr
    refine ⟨by rwa [same], ?_⟩
    rwa [refTo_congr hid same]
  | out id cell v =>
    intro hr
    rw [hid] at hr
    have mem : cell ∈ (Holding.out id cell v).cells s.id := by simp [Holding.cells, hr]
    obtain ⟨c, hcell, hv⟩ := hb hr
    refine ⟨c, (hc cell mem).trans hcell, ?_⟩
    cases v with
    | callable f =>
      obtain ⟨k, rfl, hk⟩ := hv
      exact ⟨k, rfl, fun open' => (hp open' cell mem _ k hcell rfl).trans (hk (ho open'))⟩
    | _ => exact hv
  | inbound id cell =>
    intro hr
    rw [hid] at hr
    rw [hc cell (by simp [Holding.cells, hr])]
    exact hb hr
  | slot id a v =>
    intro hr
    rw [hid] at hr
    refine ⟨(hb hr).1, fun open' => ?_⟩
    rw [ha open' a (by simp [Holding.slots, hr])]
    exact (hb hr).2 (ho open')
  | entered id previous =>
    intro hr open'
    exact hb (hr.trans hid) (ho open')
  | pin id k v =>
    intro hr open' u hu
    rw [hid] at hr
    obtain ⟨f, rfl, hf⟩ := hb hr (ho open') u hu
    exact ⟨f, rfl, (hn open' k (by simp [Holding.pins, hr])).trans hf⟩
  | _ => trivial

/-- A holding of which only the cell counts is always backed. -/
theorem Backs.plain {h : Holding} (hb : s.Backs h) : s.Backs h.plain := by
  cases h with
  | ref | out | inbound => trivial
  | _ => exact hb

namespace Sound

/-! ## Changes -/

/-- The runtime is no part of the books. -/
theorem withMachine (hs : s.Sound e H) (m : Script.Machine) :
    Sound e H { s with machine := m } :=
  { hs with }

/-- A holding gives way to others that hold the same. -/
theorem exchange {K L : Multiset Holding} (hs : s.Sound e (K + H))
    (cells : tally (Holding.cells s.id) L = tally (Holding.cells s.id) K)
    (weight : tally (Holding.weight s.id) L = tally (Holding.weight s.id) K)
    (pins : tally (Holding.pins s.id) L = tally (Holding.pins s.id) K)
    (slots : tally (Holding.slots s.id) L = tally (Holding.slots s.id) K)
    (callables : tally Holding.callables L = tally Holding.callables K)
    (debts : tally Holding.debts L = tally Holding.debts K)
    (backs : ∀ h ∈ L, s.Backs h) (near : ∀ h ∈ L, e.known h.session) :
    s.Sound e (L + H) :=
  { hs with
    cells := by rw [tally_add, cells, ← tally_add, hs.cells]
    ledger := by rw [tally_add, weight, ← tally_add, hs.ledger]
    backs := by
      intro h hh
      cases Multiset.mem_add.mp hh with
      | inl hl => exact backs h hl
      | inr hr => exact hs.backs h (Multiset.mem_add.mpr (Or.inr hr))
    anchored := by
      intro ho
      rw [tally_add, slots, ← tally_add, hs.anchored ho]
    pins := by
      intro ho
      rw [tally_add, pins, ← tally_add, hs.pins ho]
    worth := by rw [tally_add, tally_add, callables, debts, ← tally_add, ← tally_add, hs.worth]
    payable := by
      rw [tally_add, debts, ← tally_add]
      exact hs.payable
    near := by
      intro h hh
      cases Multiset.mem_add.mp hh with
      | inl hl => exact near h hl
      | inr hr => exact hs.near h (Multiset.mem_add.mpr (Or.inr hr)) }

/-- Only the cell of a holding counts from now on. -/
theorem plain {h : Holding} (hs : s.Sound e ({h} + H)) : s.Sound e ({h.plain} + H) := by
  refine hs.exchange (by simp) (by simp) (by simp) (by simp) (by simp) (by simp) ?_ ?_
  · intro k hk
    rw [Multiset.mem_singleton.mp hk]
    exact (hs.backs h (by simp)).plain
  · intro k hk
    rw [Multiset.mem_singleton.mp hk, Holding.session_plain]
    exact hs.near h (by simp)

theorem acquire (hs : s.Sound e H) (n : Nat) :
    Sound e ({.due s.id n} + H) { s with ledger := s.ledger.acquire n } :=
  { hs with
    cells := by simpa [Holding.cells] using hs.cells
    ledger := by
      have balance := hs.ledger
      simp only [Ledger.outstanding_acquire, tally_add, tally_singleton, Holding.weight,
        if_true, weigh] at balance ⊢
      omega
    backs := by
      intro h hh
      rw [Multiset.singleton_add, Multiset.mem_cons] at hh
      obtain rfl | hh := hh
      · trivial
      · exact hs.backs h hh
    anchored := by simpa [Holding.slots, moorings] using hs.anchored
    pins := by simpa [Holding.pins, cellPins, userdataPins] using hs.pins
    worth := by simpa [Holding.callables, Holding.debts, pinned] using hs.worth
    payable := by simpa [Holding.debts] using hs.payable
    near := by
      intro h hh
      rw [Multiset.singleton_add, Multiset.mem_cons] at hh
      obtain rfl | hh := hh
      · exact hs.known
      · exact hs.near h hh }

/-- Weight that is due can be taken off without overdrawing the ledger. -/
theorem settle {n : Nat} (hs : s.Sound e ({.due s.id n} + H)) :
    Sound e H { s with ledger := s.ledger.release n } :=
  { hs with
    cells := by simpa [Holding.cells] using hs.cells
    ledger := by
      have balance := hs.ledger
      simp only [Ledger.outstanding_release, tally_add, tally_singleton, Holding.weight,
        if_true, weigh] at balance ⊢
      omega
    solvent := by
      have covered := hs.covered
      simp only [tally_add, tally_singleton, Holding.weight, if_true] at covered
      rw [Ledger.overdrawn_release (by omega)]
      exact hs.solvent
    backs := fun h hh => hs.backs h (by simp [hh])
    anchored := by simpa [Holding.slots, moorings] using hs.anchored
    pins := by simpa [Holding.pins, cellPins, userdataPins] using hs.pins
    worth := by simpa [Holding.callables, Holding.debts, pinned] using hs.worth
    payable := by simpa [Holding.debts] using hs.payable
    near := fun h hh => hs.near h (by simp [hh]) }

end Sound

end Session

end ScriptBridge

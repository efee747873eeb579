import ScriptBridge.Proofs.Contents

/-!
# ScriptBridge.Proofs.Allocation

What is outstanding on the ledger of a session: one allocation for each reference that is alive,
and those of the values on their way to its runtime.

Main facts:

* `Session.Booked.sum_cells` — what all cells have of something is what those have that are held;
* `Session.Tidy.outstanding` — the ledger shows what the holdings stand for;
* `outstanding_run` — the ledger of a session, at any point of any run.
-/

namespace ScriptBridge

open scoped CoreInstances

/-! ## The ledger -/

namespace Session

variable {s : Session} {m : Memory} {H : Multiset Holding}

/-- What a cell has of something, if it is there. -/
def ofCell {M : Type} [Zero M] (s : Session) (g : Cell → M) (cell : CellId) : M :=
  (s.cell? cell).elim 0 g

section

variable {M : Type} [AddCommMonoid M]

theorem sum_tally (f : Holding → Multiset CellId) (g : CellId → M) (H : Multiset Holding) :
    ((tally f H).map g).sum = tally (fun h => ((f h).map g).sum) H := by
  induction H using Multiset.induction_on with
  | empty => rfl
  | cons h H ih =>
    rw [tally_cons, tally_cons, Multiset.map_add, Multiset.sum_add, ih]

/-- What all cells have of something is what those have that are held. -/
theorem Booked.sum_cells (hs : s.Booked H) (g : Cell → M) :
    ((entries s.cells).map fun e => g e.2).sum
      = tally (fun h => ((h.cells s.id).map (s.ofCell g)).sum) H := by
  rw [← sum_tally, ← hs.cells, keys, Multiset.map_map]
  refine congrArg Multiset.sum (Multiset.map_congr rfl fun e he => ?_)
  have there : s.cell? e.1 = some e.2 := mem_entries.mp he
  rw [Function.comp_apply, ofCell, there, Option.elim_some]

end

/-- A cell on its way to the runtime weighs what its value is worth in allocations. -/
theorem Conveys.weight {c : Cell} {v : Value} (h : s.Conveys c v) : c.weight = v.allocations := by
  cases v with
  | callable f =>
    obtain ⟨handle, rfl, -⟩ := h
    rfl
  | number x | boolean b | string text =>
    obtain rfl := h
    rfl
  | _ => exact h.elim

/-- A holding that is backed stands for the weight of its cell. -/
theorem Backs.mass {h : Holding} (hb : s.Backs h) (rests : Host.Resting h) :
    ((h.cells s.id).map (s.ofCell Cell.weight)).sum + h.weight s.id = h.mass s.id := by
  cases h with
  | ref r =>
    by_cases same : r.session = s.id
    · obtain ⟨⟨c, a, hc, ha⟩, -⟩ := hb same
      have one : c.weight = 1 := by cases c <;> simp_all [Cell.anchor?, Cell.weight]
      simp [Holding.cells, Holding.weight, Holding.mass, Holding.refs, Holding.load, same, ofCell,
        hc, one, Multiset.filter_singleton]
    · simp [Holding.cells, Holding.weight, Holding.mass, Holding.refs, Holding.load, same,
        Multiset.filter_singleton]
  | out session cell v =>
    by_cases same : session = s.id
    · obtain ⟨c, hc, conveys⟩ := hb same
      simp [Holding.cells, Holding.weight, Holding.mass, Holding.refs, Holding.load, same, ofCell,
        hc, conveys.weight]
    · simp [Holding.cells, Holding.weight, Holding.mass, Holding.refs, Holding.load, same]
  | inbound | cell | due => exact rests.elim
  | _ => rfl

/-- The ledger shows what the holdings stand for. -/
theorem Tidy.outstanding (hs : s.Tidy m H) (rests : ∀ h ∈ H, Host.Resting h) :
    s.ledger.outstanding = (tally (Holding.mass s.id) H : Nat) := by
  have each : tally (fun h => ((h.cells s.id).map (s.ofCell Cell.weight)).sum) H
      + tally (Holding.weight s.id) H = tally (Holding.mass s.id) H := by
    rw [tally, tally, tally, ← Multiset.sum_map_add]
    exact congrArg Multiset.sum
      (Multiset.map_congr rfl fun h hh => (hs.backs h hh).mass (rests h hh))
  rw [hs.ledger, weigh, hs.sum_cells Cell.weight, each]

end Session

namespace Host

/-- At any point of any run, whatever a program did until then, the ledger of each session shows
one allocation for each reference that is alive and those of the values on their way to its
runtime, and it was never overdrawn. -/
theorem outstanding_run (program : List Step) (whims : List Whim) (n : Nat) (id : SessionId) :
    let w := (World.start program whims).run n
    (w.sessions[id]?).map (fun s => (s.ledger.outstanding, s.ledger.overdrawn))
      = (w.sessions[id]?).map fun _ =>
        (((w.liveRefs id).card : Int) + ((w.inTransit id).map Value.allocations).sum, false) := by
  intro w
  have books := World.books_run program whims n
  change World.Books _ 0 w at books
  rw [World.Books, add_zero] at books
  cases hs : w.sessions[id]? with
  | none => rfl
  | some s =>
    obtain ⟨rfl, tidy⟩ := books.1.tidy id s hs
    have shown := tidy.outstanding fun h hh => World.resting hh
    rw [tally_mass, World.tally_refs, World.tally_load books.1.fits, ← World.liveRefs] at shown
    rw [Option.map_some, Option.map_some, shown, tidy.solvent]
    push_cast
    rfl

end Host

end ScriptBridge

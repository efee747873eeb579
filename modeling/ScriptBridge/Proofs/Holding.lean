import Mathlib.Algebra.BigOperators.Group.Multiset.Basic
import ScriptBridge.Session

/-!
# ScriptBridge.Proofs.Holding

What the host has to let go of.  Every cell of a session, every pin, every owner of a host
callable and every allocation still to be taken off a ledger has one holder, and a `Holding` is
the claim of one holder on one of them.  A multiset of holdings is an inventory.

A value of the host holds what it refers to: `Value.holdings`.  A transfer holds its cells, each
on behalf of the value it carries: `outHoldings`.
-/

namespace ScriptBridge

/-- The claim of one holder on one thing. -/
inductive Holding where
  /-- A live reference, which owns its cell. -/
  | ref (r : Ref)
  /-- A cell on its way to a runtime with a value. -/
  | out (session : SessionId) (cell : CellId) (v : Value)
  /-- A cell on its way from a runtime. -/
  | inbound (session : SessionId) (cell : CellId)
  /-- A cell that is to be released. -/
  | cell (session : SessionId) (cell : CellId)
  /-- Weight that is to be taken off a ledger. -/
  | due (session : SessionId) (weight : Nat)
  /-- A pin that neither a cell nor a userdata of the runtime owns, with the value that it is for,
  if that is known. -/
  | pin (session : SessionId) (handle : Handle) (v : Option Value)
  /-- An anchor that no cell owns, with the value it holds. -/
  | slot (session : SessionId) (anchor : Anchor) (v : Script.Value)
  /-- The thread that was active before host code was entered. -/
  | entered (session : SessionId) (previous : Option Script.ThreadId)
  /-- One owner of a callable. -/
  | callable (id : CallableId)
  /-- An owner of a callable that its count does not show yet. -/
  | unpaid (id : CallableId)
  deriving DecidableEq

namespace Holding

/-- The cell of a session that is held. -/
def cells (id : SessionId) : Holding → Multiset CellId
  | .ref r => if r.session = id then {r.cell} else 0
  | .out s c _ => if s = id then {c} else 0
  | .inbound s c => if s = id then {c} else 0
  | .cell s c => if s = id then {c} else 0
  | _ => 0

/-- The weight due to be taken off the ledger of a session. -/
def weight (id : SessionId) : Holding → Nat
  | .due s w => if s = id then w else 0
  | _ => 0

/-- The pin of a session that is held, by the number of its handle. -/
def pins (id : SessionId) : Holding → Multiset Nat
  | .pin s h _ => if s = id then {h.number} else 0
  | _ => 0

/-- The anchor of a session that is held. -/
def slots (id : SessionId) : Holding → Multiset Anchor
  | .slot s a _ => if s = id then {a} else 0
  | _ => 0

/-- The callable that is owned. -/
def callables : Holding → Multiset CallableId
  | .callable c => {c}
  | _ => 0

/-- The callable that is owned without being counted. -/
def debts : Holding → Multiset CallableId
  | .unpaid c => {c}
  | _ => 0

/-- The session that a holding is about; zero, which is the number of none, if there is none. -/
def session : Holding → SessionId
  | .ref r => r.session
  | .out s .. | .inbound s _ | .cell s _ | .due s _ | .pin s .. | .slot s .. | .entered s _ => s
  | .callable _ | .unpaid _ => 0

/-- What remains of a holding when only the cell counts. -/
def plain : Holding → Holding
  | .ref r => .cell r.session r.cell
  | .out s c _ | .inbound s c => .cell s c
  | h => h

variable (id : SessionId) (h : Holding)

@[simp] theorem cells_plain : h.plain.cells id = h.cells id := by cases h <;> rfl
@[simp] theorem weight_plain : h.plain.weight id = h.weight id := by cases h <;> rfl
@[simp] theorem pins_plain : h.plain.pins id = h.pins id := by cases h <;> rfl
@[simp] theorem slots_plain : h.plain.slots id = h.slots id := by cases h <;> rfl
@[simp] theorem callables_plain : h.plain.callables = h.callables := by cases h <;> rfl
@[simp] theorem debts_plain : h.plain.debts = h.debts := by cases h <;> rfl
@[simp] theorem session_plain : h.plain.session = h.session := by cases h <;> rfl

end Holding

/-! ## Totals -/

/-- A total over an inventory. -/
def tally {M : Type} [AddCommMonoid M] (f : Holding → M) (H : Multiset Holding) : M :=
  (H.map f).sum

section

variable {M : Type} [AddCommMonoid M] (f : Holding → M)

@[simp] theorem tally_zero : tally f 0 = 0 := by simp [tally]

@[simp] theorem tally_cons (h : Holding) (H : Multiset Holding) :
    tally f (h ::ₘ H) = f h + tally f H := by simp [tally]

@[simp] theorem tally_singleton (h : Holding) : tally f {h} = f h := by simp [tally]

@[simp] theorem tally_add (H K : Multiset Holding) :
    tally f (H + K) = tally f H + tally f K := by simp [tally]

end

theorem mem_tally {α : Type} {f : Holding → Multiset α} {H : Multiset Holding} {a : α} :
    a ∈ tally f H ↔ ∃ h ∈ H, a ∈ f h := by
  induction H using Multiset.induction_on with
  | empty => simp
  | cons h H ih => simp [ih]

/-- One owner for each of some callables. -/
def owners (fs : List CallableId) : Multiset Holding := (fs.map Holding.callable : List Holding)

@[simp] theorem owners_nil : owners [] = 0 := rfl

@[simp] theorem owners_cons (f : CallableId) (fs : List CallableId) :
    owners (f :: fs) = {.callable f} + owners fs := rfl

theorem owners_toList (f : Option CallableId) :
    owners f.toList = f.elim 0 fun f => {.callable f} := by
  cases f <;> rfl

theorem mem_owners {fs : List CallableId} {h : Holding} :
    h ∈ owners fs ↔ ∃ f ∈ fs, .callable f = h := by
  simp [owners]

theorem tally_owners {M : Type} [AddCommMonoid M] {f : Holding → M} {fs : List CallableId}
    (h : ∀ id, f (.callable id) = 0) : tally f (owners fs) = 0 := by
  induction fs with
  | nil => simp
  | cons id fs ih => simp [h, ih]

@[simp] theorem tally_callables_owners (fs : List CallableId) :
    tally Holding.callables (owners fs) = ↑fs := by
  induction fs with
  | nil => simp
  | cons id fs ih => simp [ih, Holding.callables]

/-! ## What values and transfers hold -/

/-- What a value holds. -/
def Value.holdings : Value → Multiset Holding
  | .reference r | .function r => {.ref r}
  | .callable c => {.callable c}
  | _ => 0

theorem Value.mem_holdings_ref {v : Value} {r : Ref} (h : v.ref? = some r) : .ref r ∈ v.holdings := by
  cases v with
  | reference q | function q =>
    obtain rfl := Option.some.inj h
    exact Multiset.mem_singleton_self _
  | _ => cases h

/-- What a list of values holds. -/
def valueHoldings (vs : List Value) : Multiset Holding := (vs.map Value.holdings).sum

@[simp] theorem valueHoldings_nil : valueHoldings [] = 0 := rfl

@[simp] theorem valueHoldings_cons (v : Value) (vs : List Value) :
    valueHoldings (v :: vs) = v.holdings + valueHoldings vs := by simp [valueHoldings]

@[simp] theorem valueHoldings_append (vs us : List Value) :
    valueHoldings (vs ++ us) = valueHoldings vs + valueHoldings us := by simp [valueHoldings]

@[simp] theorem valueHoldings_reverse (vs : List Value) :
    valueHoldings vs.reverse = valueHoldings vs := by
  induction vs with
  | nil => rfl
  | cons v vs ih => simp [ih, add_comm]

theorem mem_valueHoldings {v : Value} {vs : List Value} {h : Holding} (hv : v ∈ vs)
    (hh : h ∈ v.holdings) : h ∈ valueHoldings vs := by
  induction vs with
  | nil => cases hv
  | cons u vs ih =>
    rw [valueHoldings_cons, Multiset.mem_add]
    cases hv with
    | head => exact .inl hh
    | tail _ hv => exact .inr (ih hv)

/-- What a transfer of one value holds: the cell that was made for it. -/
def outHolding (id : SessionId) (out : Session.Outbound) (v : Value) : Multiset Holding :=
  match out with
  | .owned cell => {.out id cell v}
  | _ => 0

/-- What a transfer holds on behalf of the values it carries. -/
def outHoldings (id : SessionId) : List Session.Outbound → List Value → Multiset Holding
  | out :: outs, v :: vs => outHolding id out v + outHoldings id outs vs
  | _, _ => 0

@[simp] theorem outHoldings_nil (id : SessionId) (vs : List Value) :
    outHoldings id [] vs = 0 := rfl

@[simp] theorem outHoldings_cons (id : SessionId) (out : Session.Outbound)
    (outs : List Session.Outbound) (v : Value) (vs : List Value) :
    outHoldings id (out :: outs) (v :: vs) = outHolding id out v + outHoldings id outs vs := rfl

theorem outHoldings_append {id : SessionId} {outs outs' : List Session.Outbound}
    {vs vs' : List Value} (h : outs.length = vs.length) :
    outHoldings id (outs ++ outs') (vs ++ vs')
      = outHoldings id outs vs + outHoldings id outs' vs' := by
  induction outs generalizing vs with
  | nil =>
    obtain rfl := List.eq_nil_of_length_eq_zero h.symm
    simp
  | cons out outs ih =>
    cases vs with
    | nil => simp at h
    | cons v vs => simp [ih (by simpa using h), add_assoc]

/-- The cell that was made for a value is held on behalf of it. -/
theorem mem_outHoldings_owned {id : SessionId} {outs : List Session.Outbound} {vs : List Value}
    {k : CellId} (hk : .owned k ∈ outs) (h : outs.length = vs.length) :
    ∃ v ∈ vs, .out id k v ∈ outHoldings id outs vs := by
  induction outs generalizing vs with
  | nil => cases hk
  | cons out outs ih =>
    cases vs with
    | nil => cases h
    | cons v vs =>
      rw [outHoldings_cons]
      cases hk with
      | head => exact ⟨v, List.mem_cons_self, Multiset.mem_add.mpr (.inl (Multiset.mem_singleton_self _))⟩
      | tail _ hk =>
        obtain ⟨u, hu, there⟩ := ih hk (Nat.succ.inj h)
        exact ⟨u, List.mem_cons_of_mem _ hu, Multiset.mem_add.mpr (.inr there)⟩

/-- What the cells from a runtime are held as. -/
def inHoldings (id : SessionId) (cells : List (Option CellId)) : Multiset Holding :=
  (cells.map fun c => (c.elim 0 fun cell => {.inbound id cell} : Multiset Holding)).sum

@[simp] theorem inHoldings_nil (id : SessionId) : inHoldings id [] = 0 := rfl

@[simp] theorem inHoldings_none (id : SessionId) (cells : List (Option CellId)) :
    inHoldings id (none :: cells) = inHoldings id cells := by simp [inHoldings]

@[simp] theorem inHoldings_some (id : SessionId) (cell : CellId) (cells : List (Option CellId)) :
    inHoldings id (some cell :: cells) = {.inbound id cell} + inHoldings id cells := by
  simp [inHoldings]

end ScriptBridge

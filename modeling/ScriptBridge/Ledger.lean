/-!
# ScriptBridge.Ledger

The count of boundary allocations: how many are outstanding, and how many there have been.
The outstanding count is an integer, and a ledger remembers whether it was ever overdrawn, so
that releasing more than was acquired would show.
-/

namespace ScriptBridge

/-- Outstanding allocations, and all allocations so far. -/
structure Ledger where
  outstanding : Int
  total : Nat
  /-- Whether a release ever took away more than was outstanding. -/
  overdrawn : Bool
  deriving DecidableEq, Inhabited, Repr

namespace Ledger

def empty : Ledger := ⟨0, 0, false⟩

/-- Records `n` allocations. -/
def acquire (l : Ledger) (n : Nat) : Ledger :=
  { l with outstanding := l.outstanding + n, total := l.total + n }

/-- Records `n` releases. -/
def release (l : Ledger) (n : Nat) : Ledger :=
  { l with
    outstanding := l.outstanding - n
    overdrawn := l.overdrawn || decide (l.outstanding < n) }

def text (l : Ledger) : String :=
  s!"Allocations \x7b live: {l.outstanding}, total: {l.total} \x7d"

@[simp] theorem outstanding_acquire (l : Ledger) (n : Nat) :
    (l.acquire n).outstanding = l.outstanding + n := rfl

@[simp] theorem overdrawn_acquire (l : Ledger) (n : Nat) :
    (l.acquire n).overdrawn = l.overdrawn := rfl

@[simp] theorem outstanding_release (l : Ledger) (n : Nat) :
    (l.release n).outstanding = l.outstanding - n := rfl

theorem overdrawn_release {l : Ledger} {n : Nat} (h : (n : Int) ≤ l.outstanding) :
    (l.release n).overdrawn = l.overdrawn := by
  simp only [release, Bool.or_eq_left_iff_imp, decide_eq_true_eq]
  omega

theorem release_acquire_outstanding (l : Ledger) (n : Nat) :
    ((l.acquire n).release n).outstanding = l.outstanding := by
  simp only [outstanding_release, outstanding_acquire]; omega

end Ledger

end ScriptBridge

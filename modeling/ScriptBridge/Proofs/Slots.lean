import Mathlib.Data.Multiset.Range
import ScriptBridge.Anchor
import ScriptBridge.Proofs.Entries

/-!
# ScriptBridge.Proofs.Slots

Anchors are conserved when every slot there is either holds a value or is to spare, and none is
or does both.  Taking a slot keeps this, and so does giving back a slot that holds a value; a slot
that is given back twice would break it.

Main facts:

* `Anchors.Conserved.next_free` — the next slot taken holds nothing;
* `Anchors.Conserved.take`, `Anchors.Conserved.free` — the operations conserve slots.
-/

namespace ScriptBridge

namespace Anchors

variable {α : Type} {a : Anchors α}

/-- The slots of a runtime that has made so many. -/
def slots (size : Nat) : Multiset Anchor := (Multiset.range size).map (· + 1)

theorem mem_slots {size slot : Nat} : slot ∈ slots size ↔ 0 < slot ∧ slot ≤ size := by
  rw [slots, Multiset.mem_map]
  constructor
  · rintro ⟨n, hn, rfl⟩
    have := Multiset.mem_range.mp hn
    omega
  · intro h
    exact ⟨slot - 1, Multiset.mem_range.mpr (by omega), by omega⟩

theorem nodup_slots (size : Nat) : (slots size).Nodup :=
  (Multiset.nodup_range size).map (add_left_injective 1)

theorem slots_succ (size : Nat) : slots (size + 1) = (size + 1) ::ₘ slots size := by
  rw [slots, Multiset.range_succ, Multiset.map_cons, slots]

/-- Every slot holds a value or is to spare, and does so once. -/
def Conserved (a : Anchors α) : Prop := keys a.held + ↑a.spare = slots a.size

theorem conserved_empty : (empty : Anchors α).Conserved := by
  simp [Conserved, empty, slots]

namespace Conserved

theorem nodup (h : a.Conserved) : (keys a.held + ↑a.spare).Nodup := by
  rw [h]
  exact nodup_slots a.size

/-- The next slot taken holds nothing. -/
theorem next_free (h : a.Conserved) : a.get? a.next = none := by
  rw [Option.eq_none_iff_forall_ne_some]
  intro v hv
  have held : a.next ∈ keys a.held := mem_keys.mpr ⟨v, hv⟩
  cases hs : a.spare with
  | nil =>
    have made : a.next ∈ slots a.size := by
      rw [← h]
      exact Multiset.mem_add.mpr (Or.inl held)
    have bound := (mem_slots.mp made).2
    rw [show a.next = a.size + 1 by simp [Anchors.next, hs]] at bound
    exact absurd bound (Nat.not_succ_le_self a.size)
  | cons slot rest =>
    have spare : a.next ∈ (↑a.spare : Multiset Anchor) := by simp [next, hs]
    exact Multiset.disjoint_left.mp (Multiset.nodup_add.mp h.nodup).2.2 held spare

theorem take (h : a.Conserved) (value : α) : (a.take value).2.Conserved := by
  have fresh : a.held[a.next]? = none := h.next_free
  have slots : keys a.held + ↑a.spare = Anchors.slots a.size := h
  rw [Conserved, Anchors.take, keys_insert fresh]
  cases hs : a.spare with
  | nil =>
    have next : a.next = a.size + 1 := by simp [Anchors.next, hs]
    rw [hs, Multiset.coe_nil, add_zero] at slots
    simp [slots, slots_succ, next]
  | cons slot rest =>
    have next : a.next = slot := by simp [Anchors.next, hs]
    rw [hs, ← Multiset.cons_coe, Multiset.add_cons] at slots
    simp [slots, next]

/-- A slot that holds a value can be given back. -/
theorem free {slot : Anchor} {v : α} (h : a.Conserved) (hv : a.get? slot = some v) :
    (a.free slot).Conserved := by
  have slots := h
  rw [Conserved, keys_erase hv] at slots
  rw [Conserved, Anchors.free, ← slots, ← Multiset.cons_coe, Multiset.add_cons,
    Multiset.cons_add]

end Conserved

end Anchors

end ScriptBridge

import Mathlib.Data.Multiset.MapFold
import Mathlib.Data.Multiset.Filter
import Mathlib.Algebra.BigOperators.Group.Multiset.Basic
import Std.Data.TreeMap

/-!
# ScriptBridge.Proofs.Entries

The entries of a map as a multiset.  What an operation on a map does to the look-up says, by
extensionality, what it does to the entries; sums over the entries then change by one summand.

Main facts:

* `entries_insert` — an entry under a new key is one entry more;
* `entries_erase` — an entry is the one that erasing its key takes away;
* `entries_replace`, `entries_modify` — a value under a key gives way to another.
-/

namespace ScriptBridge

open Std

variable {α β : Type} [Ord α] [TransOrd α] [LawfulEqOrd α]

/-- The entries of a map. -/
def entries (t : TreeMap α β) : Multiset (α × β) := t.toList

theorem mem_entries {t : TreeMap α β} {e : α × β} : e ∈ entries t ↔ t[e.1]? = some e.2 :=
  Multiset.mem_coe.trans TreeMap.mem_toList_iff_getElem?_eq_some

theorem nodup_entries (t : TreeMap α β) : (entries t).Nodup := by
  rw [entries, Multiset.coe_nodup]
  refine TreeMap.distinct_keys_toList.imp fun {a b} h he => h ?_
  rw [he]
  exact ReflOrd.compare_self

/-- Two maps with the same look-up have the same entries. -/
theorem entries_congr {t u : TreeMap α β} (h : ∀ k : α, t[k]? = u[k]?) :
    entries t = entries u := by
  rw [Multiset.Nodup.ext (nodup_entries t) (nodup_entries u)]
  intro e
  rw [mem_entries, mem_entries, h]

omit [TransOrd α] [LawfulEqOrd α] in
@[simp] theorem entries_empty : entries (∅ : TreeMap α β) = 0 := rfl

theorem getElem?_erase_self (t : TreeMap α β) (k : α) : (t.erase k)[k]? = none := by
  simp

theorem getElem?_insert_of_ne {t : TreeMap α β} {k a : α} {v : β} (h : a ≠ k) :
    (t.insert k v)[a]? = t[a]? := by
  rw [TreeMap.getElem?_insert, if_neg]
  simpa using fun he => h he.symm

theorem getElem?_erase_of_ne {t : TreeMap α β} {k a : α} (h : a ≠ k) :
    (t.erase k)[a]? = t[a]? := by
  rw [TreeMap.getElem?_erase, if_neg]
  simpa using fun he => h he.symm

theorem entries_insert {t : TreeMap α β} {k : α} {v : β} (h : t[k]? = none) :
    entries (t.insert k v) = (k, v) ::ₘ entries t := by
  have fresh : (k, v) ∉ entries t := by simp [mem_entries, h]
  rw [Multiset.Nodup.ext (nodup_entries _)
    (Multiset.nodup_cons.mpr ⟨fresh, nodup_entries t⟩)]
  intro ⟨a, b⟩
  rw [Multiset.mem_cons, mem_entries, mem_entries]
  by_cases hk : a = k
  · subst hk
    simp [h, eq_comm]
  · rw [getElem?_insert_of_ne hk]
    simp [hk]

theorem entries_erase {t : TreeMap α β} {k : α} {v : β} (h : t[k]? = some v) :
    entries t = (k, v) ::ₘ entries (t.erase k) := by
  rw [← entries_insert (getElem?_erase_self t k)]
  refine entries_congr fun a => ?_
  by_cases hk : a = k
  · subst hk
    simp [h]
  · rw [getElem?_insert_of_ne hk, getElem?_erase_of_ne hk]

theorem entries_erase_of_none {t : TreeMap α β} {k : α} (h : t[k]? = none) :
    entries (t.erase k) = entries t := by
  refine entries_congr fun a => ?_
  by_cases hk : a = k
  · subst hk
    rw [h, getElem?_erase_self]
  · rw [getElem?_erase_of_ne hk]

theorem entries_replace (t : TreeMap α β) (k : α) (v : β) :
    entries (t.insert k v) = (k, v) ::ₘ entries (t.erase k) := by
  rw [← entries_insert (getElem?_erase_self t k)]
  refine entries_congr fun a => ?_
  by_cases hk : a = k
  · subst hk
    simp
  · rw [getElem?_insert_of_ne hk, getElem?_insert_of_ne hk, getElem?_erase_of_ne hk]

theorem getElem?_modify_self (t : TreeMap α β) (k : α) (f : β → β) :
    (t.modify k f)[k]? = t[k]?.map f := by
  rw [TreeMap.getElem?_modify, if_pos (by simp)]

theorem getElem?_modify_of_ne {t : TreeMap α β} {k a : α} {f : β → β} (h : a ≠ k) :
    (t.modify k f)[a]? = t[a]? := by
  rw [TreeMap.getElem?_modify, if_neg]
  simpa using fun he => h he.symm

theorem entries_modify {t : TreeMap α β} {k : α} {v : β} (f : β → β) (h : t[k]? = some v) :
    entries (t.modify k f) = (k, f v) ::ₘ entries (t.erase k) := by
  rw [← entries_replace]
  refine entries_congr fun a => ?_
  by_cases hk : a = k
  · subst hk
    rw [getElem?_modify_self, h]
    simp
  · rw [getElem?_modify_of_ne hk, getElem?_insert_of_ne hk]

/-! ## Keys and sums -/

/-- The keys of a map. -/
def keys (t : TreeMap α β) : Multiset α := (entries t).map (·.1)

theorem mem_keys {t : TreeMap α β} {k : α} : k ∈ keys t ↔ ∃ v, t[k]? = some v := by
  rw [keys, Multiset.mem_map]
  constructor
  · rintro ⟨⟨a, v⟩, he, rfl⟩
    exact ⟨v, mem_entries.mp he⟩
  · rintro ⟨v, hv⟩
    exact ⟨(k, v), mem_entries.mpr hv, rfl⟩

theorem nodup_keys (t : TreeMap α β) : (keys t).Nodup := by
  refine (nodup_entries t).map_on fun a ha b hb hab => ?_
  rw [mem_entries] at ha hb
  rw [hab, hb] at ha
  exact Prod.ext hab (Option.some.inj ha).symm

theorem keys_insert {t : TreeMap α β} {k : α} {v : β} (h : t[k]? = none) :
    keys (t.insert k v) = k ::ₘ keys t := by
  rw [keys, entries_insert h, Multiset.map_cons, keys]

theorem keys_erase {t : TreeMap α β} {k : α} {v : β} (h : t[k]? = some v) :
    keys t = k ::ₘ keys (t.erase k) := by
  rw [keys, entries_erase h, Multiset.map_cons, keys]

/-- A key that is left was there. -/
theorem mem_keys_erase {t : TreeMap α β} {j k : α} (h : j ∈ keys (t.erase k)) : j ∈ keys t := by
  obtain ⟨v, hv⟩ := mem_keys.mp h
  refine mem_keys.mpr ⟨v, ?_⟩
  rw [← hv, getElem?_erase_of_ne]
  rintro rfl
  rw [getElem?_erase_self] at hv
  cases hv

omit [TransOrd α] [LawfulEqOrd α] in
@[simp] theorem keys_empty : keys (∅ : TreeMap α β) = 0 := by simp [keys]

end ScriptBridge

import Mathlib.Data.List.Basic
import ScriptBridge.Script.Machine

/-!
# ScriptBridge.Proofs.Tables

What tables do, seen through their slots.  The keys of a table are in a linear order, so that a
value put under a text is found there, and all other slots are as they were.

Main facts:

* `Table.get_set_text`, `Table.get_set_of_ne` — a value is put under a text;
* `Machine.rawGet_rawSet_self`, `Machine.rawGet_rawSet_of_ne` — the same for one of all tables;
* `Machine.table_newTable` — a new table is empty, and changes no other.
-/

namespace ScriptBridge.Script

open Std

/-! ## The order of keys -/

/-- Byte strings compare as the lists of their bytes do, from any place that they share. -/
theorem compareBytesFrom_eq (a b : Bytes) (fuel i : Nat) (h : i + fuel = min a.size b.size) :
    compareBytesFrom a b fuel i
      = List.compareLex compare (a.data.toList.drop i) (b.data.toList.drop i) := by
  have length : ∀ bytes : Bytes, bytes.data.toList.length = bytes.size := fun _ => rfl
  have byte (bytes : Bytes) (j : Nat) : bytes[j]? = bytes.data.toList[j]? := by
    rw [Array.getElem?_toList]
    rfl
  induction fuel generalizing i with
  | zero =>
    rw [compareBytesFrom]
    obtain shorter | longer := Nat.le_total a.size b.size
    · rw [List.drop_eq_nil_of_le (by rw [length]; omega)]
      cases hb : b.data.toList.drop i with
      | nil =>
        have same : a.size = b.size := by
          have := congrArg List.length hb
          rw [List.length_drop, length, List.length_nil] at this
          omega
        rw [same, List.compareLex_nil_nil]
        exact ReflCmp.compare_self
      | cons x xs =>
        have less : a.size < b.size := by
          have := congrArg List.length hb
          rw [List.length_drop, length, List.length_cons] at this
          omega
        rw [List.compareLex_nil_cons]
        exact Nat.compare_eq_lt.mpr less
    · rw [List.drop_eq_nil_of_le (show b.data.toList.length ≤ i by rw [length]; omega)]
      cases ha : a.data.toList.drop i with
      | nil =>
        have same : a.size = b.size := by
          have := congrArg List.length ha
          rw [List.length_drop, length, List.length_nil] at this
          omega
        rw [same, List.compareLex_nil_nil]
        exact ReflCmp.compare_self
      | cons x xs =>
        have less : b.size < a.size := by
          have := congrArg List.length ha
          rw [List.length_drop, length, List.length_cons] at this
          omega
        rw [List.compareLex_cons_nil]
        exact Nat.compare_eq_gt.mpr less
  | succ fuel ih =>
    have ha : i < a.data.toList.length := by rw [length]; omega
    have hb : i < b.data.toList.length := by rw [length]; omega
    rw [compareBytesFrom, byte, byte, List.getElem?_eq_getElem ha, List.getElem?_eq_getElem hb,
      List.drop_eq_getElem_cons ha, List.drop_eq_getElem_cons hb, List.compareLex_cons_cons]
    dsimp only
    split
    · rename_i same
      rw [same, Std.compare_self]
      exact ih (i + 1) (by omega)
    · rename_i different
      cases order : compare a.data.toList[i] b.data.toList[i] with
      | eq => exact absurd (LawfulEqCmp.eq_of_compare order) different
      | _ => rfl

theorem compareBytes_eq (a b : Bytes) :
    compareBytes a b = List.compareLex compare a.data.toList b.data.toList :=
  compareBytesFrom_eq a b _ 0 (Nat.zero_add _)

namespace Key

/-- Keys are compared by their ranks, then by their words, and then by their texts. -/
theorem cmp_eq : cmp = compareLex (compareOn Key.rank) (compareLex (compareOn Key.word)
    (compareOn fun k => k.text.data.toList)) := by
  funext a b
  rw [cmp, compareBytes_eq]
  rfl

instance : TransCmp cmp := cmp_eq ▸ inferInstance

instance : LawfulEqCmp cmp where
  eq_of_compare {a b} h := by
    rw [cmp, compareBytes_eq, Ordering.then_eq_eq, Ordering.then_eq_eq] at h
    obtain ⟨rank, word, text⟩ := h
    obtain ⟨rank', word', text'⟩ := a
    obtain ⟨rank'', word'', text''⟩ := b
    obtain rfl := LawfulEqCmp.eq_of_compare rank
    obtain rfl := LawfulEqCmp.eq_of_compare word
    have bytes : text'.data = text''.data := Array.toList_inj.mp (LawfulEqCmp.eq_of_compare text)
    rw [ByteArray.ext bytes]

end Key

/-! ## One table -/

namespace Table

variable {t : Table} {b : Bytes} {k : Key} {key v x : Value}

/-- A key that is a text is kept in the tree. -/
theorem position?_text (t : Table) (b : Bytes) : t.position? ⟨3, 0, b⟩ = none := by
  rw [position?, if_neg]
  rintro ⟨rank, -⟩
  cases rank

/-- What putting a value under a text does. -/
theorem set_text (t : Table) (b : Bytes) (v : Value) : t.set (.str b) v
    = if v = .nil then { t with entries := t.entries.erase ⟨3, 0, b⟩ }
      else { t with entries := t.entries.insert ⟨3, 0, b⟩ (.str b, v) } := by
  have key : Key.ofValue? (.str b) = some ⟨3, 0, b⟩ := rfl
  rw [set, key]
  dsimp only
  rw [setKey, position?_text]
  dsimp only
  rw [if_neg (fun h => by cases h.1)]
  rfl

/-- A value that is put under a text is there. -/
theorem get_set_text (t : Table) (b : Bytes) (v : Value) : (t.set (.str b) v).get (.str b) = v := by
  have look : ∀ t : Table, t.get (.str b) = ((t.entries[(⟨3, 0, b⟩ : Key)]?).map (·.2)).getD .nil := by
    intro t
    have key : Key.ofValue? (.str b) = some ⟨3, 0, b⟩ := rfl
    rw [get, key]
    dsimp only
    rw [getKey, position?_text]
  rw [look, set_text]
  split
  · rename_i absent
    rw [absent]
    simp
  · simp

/-- No other slot changes. -/
theorem get_set_of_ne (t : Table) (v : Value) (ne : Key.ofValue? x ≠ Key.ofValue? (.str b)) :
    (t.set (.str b) v).get x = t.get x := by
  rw [get, get]
  cases hx : Key.ofValue? x with
  | none => rfl
  | some k =>
    have other : k ≠ ⟨3, 0, b⟩ := by
      rintro rfl
      exact ne hx
    have order : Key.cmp ⟨3, 0, b⟩ k ≠ .eq := fun eq =>
      other (LawfulEqCmp.eq_of_compare eq).symm
    have array : (t.set (.str b) v).array = t.array := by rw [set_text]; split <;> rfl
    have entries : (t.set (.str b) v).entries[k]? = t.entries[k]? := by
      rw [set_text]
      split
      · exact (TreeMap.getElem?_erase).trans (if_neg order)
      · exact (TreeMap.getElem?_insert).trans (if_neg order)
    dsimp only
    rw [getKey, getKey, position?, position?, array, entries]

theorem metatable_set_text (t : Table) (b : Bytes) (v : Value) :
    (t.set (.str b) v).metatable = t.metatable := by
  rw [set_text]
  split <;> rfl

theorem get_empty (x : Value) : Table.empty.get x = .nil := by
  rw [get]
  cases Key.ofValue? x with
  | none => rfl
  | some k =>
    have position : Table.empty.position? k = none := by
      rw [position?, if_neg]
      rintro ⟨-, low, high⟩
      have size : Table.empty.array.size = 0 := rfl
      omega
    dsimp only
    rw [getKey, position]
    simp [empty]

end Table

/-! ## All tables -/

namespace Machine

variable {m : Machine} {id T : TableId} {t : Table} {b : Bytes} {v x : Value}

/-- Whether there is a table of a number. -/
def HasTable (m : Machine) (id : TableId) : Prop := ∃ t, m.tables[id]? = some (some t)

/-- Whether the globals are a table that is there. -/
def Rooted (m : Machine) : Prop := m.HasTable m.globals

theorem Rooted.of_same {m' : Machine} (tables : m'.tables = m.tables) (globals : m'.globals = m.globals)
    (h : m.Rooted) : m'.Rooted := by
  rw [Rooted, HasTable, tables, globals]
  exact h

theorem table_of_getElem? (h : m.tables[id]? = some (some t)) : m.table id = t := by
  rw [table, Array.getD_eq_getD_getElem?, h]
  rfl

theorem table_of_absent (h : ¬ m.HasTable id) : m.table id = .empty := by
  rw [table, Array.getD_eq_getD_getElem?]
  cases ht : m.tables[id]? with
  | none => rfl
  | some entry =>
    cases entry with
    | none => rfl
    | some t => exact absurd ⟨t, ht⟩ h

theorem HasTable.lt (h : m.HasTable id) : id < m.tables.size := by
  obtain ⟨t, ht⟩ := h
  exact (Array.getElem?_eq_some_iff.mp ht).1

/-- A value is a table if it refers to one that is there. -/
theorem tableOf?_eq_some : m.tableOf? v = some T ↔ v = .table T ∧ m.HasTable T := by
  cases v with
  | table id =>
    rw [tableOf?, Array.getD_eq_getD_getElem?, HasTable, Value.table.injEq]
    rcases ht : m.tables[id]? with _ | _ | t <;> grind
  | _ => simp [tableOf?]

theorem tables_rawSet (m : Machine) (T : TableId) (key v : Value) (id : TableId) :
    (m.rawSet T key v).tables[id]?
      = if T = id then m.tables[id]?.map (Option.map fun t => t.set key v) else m.tables[id]? := by
  rw [rawSet, modifyTable, Array.getElem?_modify]

theorem hasTable_rawSet : (m.rawSet T (.str b) v).HasTable id ↔ m.HasTable id := by
  rw [HasTable, HasTable, tables_rawSet]
  split
  · cases m.tables[id]? with
    | none => simp
    | some entry => cases entry <;> simp
  · rfl

/-- Only the table that is written changes. -/
theorem table_rawSet_of_ne {key : Value} (ne : id ≠ T) :
    (m.rawSet T key v).table id = m.table id := by
  rw [table, table, Array.getD_eq_getD_getElem?, Array.getD_eq_getD_getElem?, tables_rawSet,
    if_neg (Ne.symm ne)]

theorem table_rawSet_self {key : Value} (h : m.HasTable T) :
    (m.rawSet T key v).table T = (m.table T).set key v := by
  obtain ⟨t, ht⟩ := h
  rw [table_of_getElem? ht, table, Array.getD_eq_getD_getElem?, tables_rawSet, if_pos rfl, ht]
  rfl

/-- A table that is not there stays away. -/
theorem table_rawSet_absent {key : Value} (h : ¬ m.HasTable T) :
    (m.rawSet T key v).table T = m.table T := by
  rw [table, table, Array.getD_eq_getD_getElem?, Array.getD_eq_getD_getElem?, tables_rawSet,
    if_pos rfl]
  cases ht : m.tables[T]? with
  | none => rfl
  | some entry =>
    cases entry with
    | none => rfl
    | some t => exact absurd ⟨t, ht⟩ h

theorem rawGet_rawSet_self (h : m.HasTable T) (b : Bytes) (v : Value) :
    (m.rawSet T (.str b) v).rawGet T (.str b) = v := by
  rw [rawGet, table_rawSet_self h, Table.get_set_text]

theorem rawGet_rawSet_of_ne (m : Machine) (T : TableId) (b : Bytes) (v : Value)
    (other : id ≠ T ∨ Key.ofValue? x ≠ Key.ofValue? (.str b)) :
    (m.rawSet T (.str b) v).rawGet id x = m.rawGet id x := by
  rw [rawGet, rawGet]
  by_cases here : id = T
  · subst here
    have ne := other.resolve_left (not_not_intro rfl)
    by_cases h : m.HasTable id
    · rw [table_rawSet_self h, Table.get_set_of_ne _ _ ne]
    · rw [table_rawSet_absent h]
  · rw [table_rawSet_of_ne here]

theorem metatable_rawSet (m : Machine) (T : TableId) (b : Bytes) (v : Value) (id : TableId) :
    ((m.rawSet T (.str b) v).table id).metatable = (m.table id).metatable := by
  by_cases here : id = T
  · subst here
    by_cases h : m.HasTable id
    · rw [table_rawSet_self h, Table.metatable_set_text]
    · rw [table_rawSet_absent h]
  · rw [table_rawSet_of_ne here]

/-- No table goes when one changes. -/
theorem HasTable.modifyTable (h : m.HasTable id) (T : TableId) (f : Table → Table) :
    (m.modifyTable T f).HasTable id := by
  obtain ⟨t, ht⟩ := h
  rw [HasTable, Machine.modifyTable, Array.getElem?_modify, ht]
  split
  · exact ⟨f t, rfl⟩
  · exact ⟨t, rfl⟩

theorem Rooted.modifyTable (h : m.Rooted) (T : TableId) (f : Table → Table) :
    (m.modifyTable T f).Rooted := HasTable.modifyTable h T f

/-! ## New tables -/

theorem tables_newTable (m : Machine) (id : TableId) : (m.newTable .empty).2.tables[id]?
    = if id = m.tables.size then some (some .empty) else m.tables[id]? := by
  rw [newTable, Array.getElem?_push]

/-- A new table is empty, and changes no other. -/
theorem table_newTable (m : Machine) (id : TableId) : (m.newTable .empty).2.table id
    = if id = m.tables.size then .empty else m.table id := by
  rw [table, table, Array.getD_eq_getD_getElem?, Array.getD_eq_getD_getElem?, tables_newTable]
  split <;> rfl

theorem HasTable.newTable (h : m.HasTable id) (t : Table) : (m.newTable t).2.HasTable id := by
  obtain ⟨u, hu⟩ := h
  have lt := (Array.getElem?_eq_some_iff.mp hu).1
  refine ⟨u, ?_⟩
  rw [Machine.newTable, Array.getElem?_push_lt lt, ← hu, Array.getElem?_eq_getElem lt]

theorem Rooted.newTable (h : m.Rooted) (t : Table) : (m.newTable t).2.Rooted := HasTable.newTable h t

end Machine

end ScriptBridge.Script

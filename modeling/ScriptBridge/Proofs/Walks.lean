import Mathlib.Data.List.Induction
import ScriptBridge.Proofs.Climbing
import ScriptBridge.Proofs.Tables

/-!
# ScriptBridge.Proofs.Walks

What a path names, and what walking it does.  `Machine.named` is what is found under segments, one
after the other, from the globals on, without metamethods; it says all about a walk.

Main facts:

* `Path.walkFrom_cases` — a walk comes to the table that is named, or to the first segment that names
  none;
* `Path.walkFrom_fresh` — from a new table on, all that is missing is made, and nothing can fail;
* `Path.walk_cases`, `Path.walk_error` — where a walk comes to, and when it stops;
* `Machine.Writes`, `Machine.Grafts` — what an assignment does to all tables;
* `Path.sets_of_walk`, `Path.Sets.named` — an assignment by a path, and what the path names
  afterwards.
-/

namespace ScriptBridge

open Script (TableId Machine Key Table)

/-! ## What a path names -/

namespace Script.Machine

variable {m m' : Machine} {v : Value} {T : TableId} {segment : String} {segments : List String}

/-- What is found under a segment in a value; nil where it is no table. -/
def index (m : Machine) (v : Value) (segment : String) : Value :=
  match v with
  | .table id => m.rawGet id (.str segment.toUTF8)
  | _ => .nil

/-- What segments name, one after the other, from the globals on. -/
def named (m : Machine) (segments : List String) : Value :=
  segments.foldl m.index (.table m.globals)

theorem named_append (m : Machine) (first last : List String) :
    m.named (first ++ last) = last.foldl m.index (m.named first) := List.foldl_append

theorem named_concat (m : Machine) (first : List String) (segment : String) :
    m.named (first ++ [segment]) = m.index (m.named first) segment := m.named_append first [segment]

/-- Whether segments name a table, one that is there. -/
def Names (m : Machine) (segments : List String) (T : TableId) : Prop :=
  m.named segments = .table T ∧ m.HasTable T

theorem names_iff : m.Names segments T ↔ m.tableOf? (m.named segments) = some T :=
  tableOf?_eq_some.symm

/-- Segments name one table at most. -/
theorem Names.unique {T' : TableId} (h : m.Names segments T) (h' : m.Names segments T') : T = T' :=
  Value.table.inj (h.1.symm.trans h'.1)

/-- Nothing is found where there is no table. -/
theorem foldl_index_of_not_table (h : m.tableOf? v = none) (nonempty : segments ≠ []) :
    segments.foldl m.index v = .nil := by
  have nothing : ∀ segments : List String, segments.foldl m.index .nil = .nil := by
    intro segments
    induction segments with
    | nil => rfl
    | cons segment rest ih => exact ih
  cases segments with
  | nil => exact absurd rfl nonempty
  | cons segment rest =>
    have first : m.index v segment = .nil := by
      cases v with
      | table id =>
        have absent : ¬ m.HasTable id := fun there => by
          cases h.symm.trans (tableOf?_eq_some.mpr ⟨rfl, there⟩)
        rw [index, rawGet, table_of_absent absent, Table.get_empty]
      | _ => rfl
    rw [List.foldl_cons, first, nothing]

/-- All segments before one that names a table do so. -/
theorem names_prefix {first last : List String} (h : m.Names (first ++ last) T) :
    ∃ id, m.Names first id := by
  cases found : m.tableOf? (m.named first) with
  | some id => exact ⟨id, names_iff.mpr found⟩
  | none =>
    cases last with
    | nil => exact ⟨T, by rwa [List.append_nil] at h⟩
    | cons segment rest =>
      have nothing := foldl_index_of_not_table found (List.cons_ne_nil segment rest)
      rw [← named_append, h.1] at nothing
      cases nothing

end Script.Machine

/-! ## Walks -/

namespace Path

variable {p : Path} {create : Bool} {done remaining : List String} {table : Nat} {m : Machine}

/-- A walk comes to the table that is named.  If a segment on the way names no table, it fails
there, or goes on with a new table if one is missing that may be made. -/
theorem walkFrom_cases (p : Path) (create : Bool) (done remaining : List String) {table : TableId}
    (there : m.HasTable table) :
    (∃ T, remaining.foldl m.index (.table table) = .table T ∧ m.HasTable T
      ∧ p.walkFrom create done remaining table m = (.ok T, m))
    ∨ ∃ (before : List String) (segment : String) (after : List String) (T : TableId),
      remaining = before ++ segment :: after ∧ before.foldl m.index (.table table) = .table T
      ∧ m.HasTable T ∧ m.tableOf? (m.rawGet T (.str segment.toUTF8)) = none
      ∧ p.walkFrom create done remaining table m
        = if m.rawGet T (.str segment.toUTF8) = .nil then
            if create then
              p.walkFrom true (done ++ before ++ [segment]) after m.tables.size
                ((m.newTable .empty).2.rawSet T (.str segment.toUTF8) (.table m.tables.size))
            else (.error (.undefined p.text (stem (done ++ before ++ [segment]))), m)
          else (.error (.notTable p.text (stem (done ++ before ++ [segment]))), m) := by
  induction remaining generalizing done table with
  | nil => exact .inl ⟨table, rfl, there, rfl⟩
  | cons segment rest ih =>
    rw [walkFrom]
    cases found : m.rawGet table (.str segment.toUTF8) with
    | nil =>
      refine .inr ⟨[], segment, rest, table, rfl, rfl, there, by rw [found]; rfl, ?_⟩
      rw [found, if_pos rfl, List.append_nil]
      cases create <;> rfl
    | table next =>
      dsimp only
      cases next? : m.tableOf? (.table next) with
      | none =>
        refine .inr ⟨[], segment, rest, table, rfl, rfl, there, found ▸ next?, ?_⟩
        rw [found, List.append_nil, if_neg (by simp)]
      | some id =>
        obtain ⟨eq, next?⟩ := Machine.tableOf?_eq_some.mp next?
        cases eq
        have step : m.index (.table table) segment = .table next := found
        obtain ⟨T, named, here, run⟩ | ⟨before, other, after, T, rfl, named, here, none, run⟩ :=
          ih (done ++ [segment]) next?
        · exact .inl ⟨T, by rw [List.foldl_cons, step, named], here, run⟩
        · refine .inr ⟨segment :: before, other, after, T, rfl,
            by rw [List.foldl_cons, step, named], here, none, ?_⟩
          rw [show done ++ segment :: before = done ++ [segment] ++ before by simp]
          exact run
    | _ =>
      refine .inr ⟨[], segment, rest, table, rfl, rfl, there, found ▸ rfl, ?_⟩
      rw [List.append_nil]
      exact (if_neg fun h => by cases found.symm.trans h).symm

/-- Whether the tables from a number on are new and hang on each other under some segments; the last
one is empty.  Nothing else has changed. -/
structure Chained (m m' : Machine) (first : Nat) (segments : List String) : Prop where
  links : ∀ (i : Nat) (segment : String), segments[i]? = some segment → m'.tables[first + i]?
    = some (some (Table.empty.set (.str segment.toUTF8) (.table (first + i + 1))))
  last : m'.tables[first + segments.length]? = some (some .empty)
  size : m'.tables.size = first + segments.length + 1
  below : ∀ id : Nat, id < first → m'.tables[id]? = m.tables[id]?
  aside : m' = { m with tables := m'.tables }

/-- The tables of a chain are there, without metatables, and no others are new. -/
theorem Chained.made {m' : Machine} {first : Nat} {segments : List String}
    (h : Chained m m' first segments) (id : Nat) (new : first ≤ id) :
    if id ≤ first + segments.length then ∃ t, m'.tables[id]? = some (some t) ∧ t.metatable = none
    else m'.tables[id]? = none := by
  obtain ⟨i, rfl⟩ := Nat.exists_eq_add_of_le new
  split
  · rename_i bound
    obtain inner | rfl := Nat.lt_or_eq_of_le (Nat.le_of_add_le_add_left bound)
    · obtain ⟨s, hs⟩ : ∃ s, segments[i]? = some s := ⟨_, List.getElem?_eq_getElem inner⟩
      exact ⟨_, h.links i s hs, Table.metatable_set_text _ _ _⟩
    · exact ⟨_, h.last, rfl⟩
  · rename_i beyond
    exact Array.getElem?_eq_none (by rw [h.size]; omega)

/-- From a new table on, a walk makes all that is missing. -/
theorem walkFrom_fresh (p : Path) (done : List String)
    (empty : m.tables[table]? = some (some .empty)) (latest : m.tables.size = table + 1) :
    ∃ m', p.walkFrom true done remaining table m = (.ok (table + remaining.length), m')
      ∧ Chained m m' table remaining := by
  induction remaining generalizing done table m with
  | nil => exact ⟨m, rfl, fun i s h => by simp at h, empty, latest, fun _ _ => rfl, rfl⟩
  | cons segment rest ih =>
    have missing : m.rawGet table (.str segment.toUTF8) = .nil := by
      rw [Machine.rawGet, Machine.table_of_getElem? empty, Table.get_empty]
    let m₁ := (m.newTable .empty).2.rawSet table (.str segment.toUTF8) (.table m.tables.size)
    have tables : ∀ id : Nat, m₁.tables[id]? = if table = id
        then some (some (Table.empty.set (.str segment.toUTF8) (.table (table + 1))))
        else if id = table + 1 then some (some .empty) else m.tables[id]? := by
      intro id
      rw [Machine.tables_rawSet, Machine.tables_newTable, latest]
      split
      · rename_i here
        subst here
        rw [if_neg (Nat.ne_of_lt (Nat.lt_succ_self table)), empty]
        rfl
      · rfl
    obtain ⟨m', run, chained⟩ := @ih (table + 1) m₁ (done ++ [segment])
      (by rw [tables, if_neg (by omega), if_pos rfl])
      (by simp [m₁, Machine.rawSet, Machine.modifyTable, Machine.newTable, latest])
    refine ⟨m', ?_, fun i s hs => ?_, ?_, ?_, fun id below => ?_, ?_⟩
    · rw [walkFrom, missing]
      have goes : p.walkFrom true (done ++ [segment]) rest m.tables.size m₁
          = (.ok (table + (segment :: rest).length), m') := by
        rw [latest, run, List.length_cons, Nat.add_right_comm table 1, Nat.add_assoc]
      exact goes
    · cases i with
      | zero =>
        obtain rfl : segment = s := by simpa using hs
        rw [Nat.add_zero, chained.below table (Nat.lt_succ_self _), tables, if_pos rfl]
      | succ i =>
        have link := chained.links i s (by simpa using hs)
        rwa [show table + (i + 1) = table + 1 + i by omega]
    · rw [List.length_cons, show table + (rest.length + 1) = table + 1 + rest.length by omega]
      exact chained.last
    · rw [List.length_cons, chained.size]
      omega
    · rw [chained.below id (by omega), tables, if_neg (by omega), if_neg (by omega)]
    · rw [chained.aside]
      rfl

end Path

/-! ## Heaps -/

namespace Script.Machine

variable {m m' m'' : Machine} {T last : TableId} {segments before after : List String}
  {segment key : String} {x y : Value}

/-- Different texts are different keys. -/
theorem key_ne {a b : String} (ne : a ≠ b) :
    Key.ofValue? (.str a.toUTF8) ≠ Key.ofValue? (.str b.toUTF8) := by
  intro same
  have bytes : a.toUTF8 = b.toUTF8 := congrArg Key.text (Option.some.inj same)
  exact ne (String.toByteArray_inj.mp bytes)

/-- What is different when a value was put under a text in a table: no other slot of any table. -/
structure Writes (m m' : Machine) (T : TableId) (key : String) (x : Value) : Prop where
  written : m'.rawGet T (.str key.toUTF8) = x
  others : ∀ (id : TableId) (y : Value), id ≠ T ∨ Key.ofValue? y ≠ Key.ofValue? (.str key.toUTF8) →
    m'.rawGet id y = m.rawGet id y
  metatables : ∀ id, (m'.table id).metatable = (m.table id).metatable
  tables : ∀ id, m'.HasTable id ↔ m.HasTable id

/-- What is different when a value was put under a text in the last of some new tables: each of the
others has nothing but the next under a segment, and the first is in a slot that was empty. -/
structure Grafts (m m' : Machine) (T : TableId) (segment : String) (after : List String)
    (key : String) (x : Value) : Prop where
  free : m.rawGet T (.str segment.toUTF8) = .nil
  grafted : m'.rawGet T (.str segment.toUTF8) = .table m.tables.size
  links : ∀ (i : Nat) (s : String), after[i]? = some s → ∀ y : Value,
    m'.rawGet (m.tables.size + i) y = if Key.ofValue? y = Key.ofValue? (.str s.toUTF8)
      then .table (m.tables.size + i + 1) else .nil
  last : ∀ y : Value, m'.rawGet (m.tables.size + after.length) y
    = if Key.ofValue? y = Key.ofValue? (.str key.toUTF8) then x else .nil
  others : ∀ (id : TableId) (y : Value), id < m.tables.size →
    id ≠ T ∨ Key.ofValue? y ≠ Key.ofValue? (.str segment.toUTF8) → m'.rawGet id y = m.rawGet id y
  metatables : ∀ id, (m'.table id).metatable = (m.table id).metatable
  tables : ∀ id, m'.HasTable id
    ↔ m.HasTable id ∨ m.tables.size ≤ id ∧ id ≤ m.tables.size + after.length

theorem table_congr (same : m''.tables = m'.tables) (id : TableId) : m''.table id = m'.table id := by
  rw [table, table, same]

theorem rawGet_congr (same : m''.tables = m'.tables) (id : TableId) (y : Value) :
    m''.rawGet id y = m'.rawGet id y := by rw [rawGet, rawGet, table_congr same]

theorem hasTable_congr (same : m''.tables = m'.tables) (id : TableId) :
    m''.HasTable id ↔ m'.HasTable id := by rw [HasTable, HasTable, same]

theorem Writes.congr (h : Writes m m' T key x) (same : m''.tables = m'.tables) :
    Writes m m'' T key x where
  written := (rawGet_congr same T _).trans h.written
  others := fun id y other => (rawGet_congr same id y).trans (h.others id y other)
  metatables := fun id => (congrArg Table.metatable (table_congr same id)).trans (h.metatables id)
  tables := fun id => (hasTable_congr same id).trans (h.tables id)

theorem Grafts.congr (h : Grafts m m' T segment after key x) (same : m''.tables = m'.tables) :
    Grafts m m'' T segment after key x where
  free := h.free
  grafted := (rawGet_congr same T _).trans h.grafted
  links := fun i s hs y => (rawGet_congr same _ y).trans (h.links i s hs y)
  last := fun y => (rawGet_congr same _ y).trans (h.last y)
  others := fun id y old other => (rawGet_congr same id y).trans (h.others id y old other)
  metatables := fun id => (congrArg Table.metatable (table_congr same id)).trans (h.metatables id)
  tables := fun id => (hasTable_congr same id).trans (h.tables id)

/-- An assignment in a table that is there. -/
theorem writes_rawSet (h : m.HasTable T) (key : String) (x : Value) :
    Writes m (m.rawSet T (.str key.toUTF8) x) T key x where
  written := rawGet_rawSet_self h _ x
  others := fun _ _ other => rawGet_rawSet_of_ne m T _ x other
  metatables := metatable_rawSet m T _ x
  tables := fun _ => hasTable_rawSet

/-- An assignment in the last table of a chain that was made for it. -/
theorem grafts_rawSet (h : m.HasTable T) (free : m.rawGet T (.str segment.toUTF8) = .nil)
    (chained : Path.Chained ((m.newTable .empty).2.rawSet T (.str segment.toUTF8)
      (.table m.tables.size)) m' m.tables.size after) (key : String) (x : Value) :
    Grafts m (m'.rawSet (m.tables.size + after.length) (.str key.toUTF8) x) T segment after key x := by
  have low := h.lt
  generalize size : m.tables.size = n at low chained
  let m₁ := (m.newTable .empty).2.rawSet T (.str segment.toUTF8) (.table n)
  let m₂ := m'.rawSet (n + after.length) (.str key.toUTF8) x
  have fresh : ∀ id : TableId, (m.newTable .empty).2.table id = m.table id := by
    intro id
    rw [table_newTable]
    split
    · rename_i here
      rw [table, Array.getD_eq_getD_getElem?, Array.getElem?_eq_none (Nat.le_of_eq here.symm)]
      rfl
    · rfl
  have old : ∀ id : Nat, id < n → m₂.table id = m₁.table id := by
    intro id below
    have kept := chained.below id below
    rw [table_rawSet_of_ne (Nat.ne_of_lt (Nat.lt_add_right _ below)), table, table, Array.getD_eq_getD_getElem?,
      Array.getD_eq_getD_getElem?, kept]
  have link : ∀ (i : Nat) (s : String), after[i]? = some s →
      m₂.table (n + i) = Table.empty.set (.str s.toUTF8) (.table (n + i + 1)) := by
    intro i s hs
    have bound := (List.getElem?_eq_some_iff.mp hs).1
    rw [table_rawSet_of_ne (Nat.ne_of_lt (Nat.add_lt_add_left bound n)),
      table_of_getElem? (chained.links i s hs)]
  have last : m₂.table (n + after.length) = Table.empty.set (.str key.toUTF8) x := by
    rw [table_rawSet_self ⟨_, chained.last⟩, table_of_getElem? chained.last]
  have slots : ∀ (b : Bytes) (v y : Value), (Table.empty.set (.str b) v).get y
      = if Key.ofValue? y = Key.ofValue? (.str b) then v else .nil := by
    intro b v y
    split
    · rename_i same
      have here : (Table.empty.set (.str b) v).get y
          = (Table.empty.set (.str b) v).get (.str b) := by rw [Table.get, Table.get, same]
      rw [here, Table.get_set_text]
    · rename_i other
      rw [Table.get_set_of_ne _ _ other, Table.get_empty]
  have known : ∀ id : Nat, m.HasTable id → id < n := fun id there => size ▸ there.lt
  refine ⟨free, ?_, fun i s hs y => ?_, fun y => ?_, fun id y below other => ?_, fun id => ?_,
    fun id => ?_⟩
  · rw [size, rawGet, old T low]
    refine rawGet_rawSet_self ?_ _ _
    rw [HasTable, tables_newTable, if_neg (Nat.ne_of_lt (size ▸ low))]
    exact h
  · rw [size, rawGet, link i s hs, slots]
  · rw [size, rawGet, last, slots]
  · rw [rawGet, old id (size ▸ below)]
    exact (rawGet_rawSet_of_ne _ T _ _ other).trans (by rw [rawGet, fresh]; rfl)
  · obtain below | beyond := Nat.lt_or_ge id n
    · rw [old id below, metatable_rawSet, fresh]
    · have absent : (m.table id).metatable = none := by
        rw [table, Array.getD_eq_getD_getElem?, Array.getElem?_eq_none (size ▸ beyond)]
        rfl
      have made := chained.made id beyond
      rw [metatable_rawSet, absent, table, Array.getD_eq_getD_getElem?]
      split at made
      · obtain ⟨t, ht, bare⟩ := made
        rw [ht]
        exact bare
      · rw [made]
        rfl
  · rw [size, hasTable_rawSet]
    obtain below | beyond := Nat.lt_or_ge id n
    · have kept : m'.HasTable id ↔ m₁.HasTable id := by rw [HasTable, HasTable, chained.below id below]
      rw [kept, hasTable_rawSet, HasTable, tables_newTable, if_neg (Nat.ne_of_lt (size ▸ below)),
        ← HasTable]
      exact ⟨.inl, fun there => there.resolve_right fun new => absurd new.1 (Nat.not_le.mpr below)⟩
    · have absent : ¬ m.HasTable id := fun there => absurd (known id there) (Nat.not_lt.mpr beyond)
      have made := chained.made id beyond
      rw [HasTable]
      split at made
      · rename_i bound
        obtain ⟨t, ht, -⟩ := made
        exact ⟨fun _ => .inr ⟨beyond, bound⟩, fun _ => ⟨t, ht⟩⟩
      · rename_i outside
        rw [made]
        refine ⟨fun there => ?_, fun there => absurd (there.resolve_left absent).2 outside⟩
        obtain ⟨_, eq⟩ := there
        cases eq

/-! ## What a path names afterwards -/

/-- A path goes on naming the table that was written, unless a table on the way to it was. -/
theorem Writes.named (h : Writes m m' T key x) (globals : m'.globals = m.globals)
    (clear : ∀ before s after, segments = before ++ s :: after → m.named before = .table T →
      s = key → m.named (before ++ [s]) = x) :
    m'.named segments = m.named segments := by
  suffices all : ∀ first rest, segments = first ++ rest → m'.named first = m.named first from
    all segments [] (List.append_nil _).symm
  intro first
  induction first using List.reverseRecOn with
  | nil =>
    intro _ _
    rw [Machine.named, Machine.named, globals]
    rfl
  | append_singleton first s ih =>
    intro rest split
    rw [List.append_assoc] at split
    rw [named_concat, named_concat, ih _ split]
    cases found : m.named first with
    | table id =>
      change m'.rawGet id (.str s.toUTF8) = m.rawGet id (.str s.toUTF8)
      by_cases here : id = T ∧ s = key
      · obtain ⟨rfl, rfl⟩ := here
        rw [h.written, ← clear first s rest split found rfl, named_concat, found]
        rfl
      · refine h.others id _ ?_
        obtain other | other := not_and_or.mp here
        · exact .inl other
        · exact .inr (key_ne other)
    | _ => rfl

/-- A path names the last of the tables that were made for it. -/
theorem Grafts.named (h : Grafts m m' T segment after key x) (globals : m'.globals = m.globals)
    (found : m.Names before T) :
    m'.Names (before ++ segment :: after) (m.tables.size + after.length) := by
  have way : ∀ first rest, before = first ++ rest → m'.named first = m.named first := by
    intro first
    induction first using List.reverseRecOn with
    | nil =>
      intro _ _
      rw [Machine.named, Machine.named, globals]
      rfl
    | append_singleton first s ih =>
      intro rest split
      obtain ⟨next, there, -⟩ : ∃ next, m.Names (first ++ [s]) next := names_prefix (split ▸ found)
      rw [List.append_assoc] at split
      obtain ⟨id, on, known⟩ : ∃ id, m.Names first id := names_prefix (split ▸ found)
      rw [named_concat, on] at there
      rw [named_concat, named_concat, ih _ split, on]
      refine h.others id _ known.lt ?_
      by_cases here : id = T
      · -- the slot that was empty is not on the way
        refine .inr (key_ne ?_)
        rintro rfl
        cases (here ▸ h.free).symm.trans there
      · exact .inl here
  have chain : ∀ (first rest : List String), after = first ++ rest →
      rest.foldl m'.index (.table (m.tables.size + first.length))
        = .table (m.tables.size + after.length) := by
    intro first rest
    induction rest generalizing first with
    | nil =>
      rintro rfl
      rw [List.append_nil]
      rfl
    | cons s rest ih =>
      intro split
      have there : after[first.length]? = some s := by rw [split]; simp
      have link : m'.index (.table (m.tables.size + first.length)) s
          = .table (m.tables.size + (first ++ [s]).length) := by
        rw [List.length_append]
        exact (h.links _ s there _).trans (if_pos rfl)
      rw [List.foldl_cons, link]
      exact ih (first ++ [s]) (by rw [split, List.append_assoc]; rfl)
  refine ⟨?_, (h.tables _).mpr (.inr ⟨Nat.le_add_right _ _, Nat.le_refl _⟩)⟩
  rw [named_append, way before [] (List.append_nil _).symm, found.1, List.foldl_cons]
  rw [show m'.index (.table T) segment = .table m.tables.size from h.grafted]
  exact chain [] after rfl

end Script.Machine

/-! ## Where a walk comes to -/

namespace Path

variable {p : Path} {create : Bool} {m m' : Machine} {T : TableId} {fault fault' : PathFault}

/-- Whether a walk stops with a fault: at the shortest prefix that names no table, if that is not
nil, or if missing tables are not made. -/
def Stops (p : Path) (create : Bool) (m : Machine) (fault : PathFault) : Prop :=
  ∃ (before : List String) (segment : String) (after : List String),
    p.parents = before ++ segment :: after ∧ (∃ T, m.Names before T)
    ∧ (∀ T, ¬ m.Names (before ++ [segment]) T)
    ∧ if m.named (before ++ [segment]) = .nil then
        create = false ∧ fault = .undefined p.text (stem (before ++ [segment]))
      else fault = .notTable p.text (stem (before ++ [segment]))

/-- The table that is missing, and can be made: what is before it, and what is to come after. -/
def Lacks (p : Path) (m : Machine) (before : List String) (segment : String) (after : List String)
    (T : TableId) : Prop :=
  p.parents = before ++ segment :: after ∧ m.Names before T
    ∧ m.named (before ++ [segment]) = .nil

/-- What is nil is no table. -/
theorem not_names_of_nil {segments : List String} (missing : m.named segments = .nil) :
    ¬ m.Names segments T := fun named => by cases missing.symm.trans named.1

/-- A walk comes to the table that is named, makes the tables that are missing, or stops. -/
theorem walk_cases (p : Path) (create : Bool) (rooted : m.Rooted) :
    (∃ T, m.Names p.parents T ∧ p.walk create m = (.ok T, m))
    ∨ (create = true ∧ ∃ before segment after T m', p.Lacks m before segment after T
        ∧ p.walk create m = (.ok (m.tables.size + after.length), m')
        ∧ Chained ((m.newTable .empty).2.rawSet T (.str segment.toUTF8) (.table m.tables.size)) m'
          m.tables.size after)
    ∨ ∃ fault, p.Stops create m fault ∧ p.walk create m = (.error fault, m) := by
  obtain ⟨T, named, there, run⟩ | ⟨before, segment, after, T, split, named, there, none, run⟩ :=
    walkFrom_cases p create [] p.parents rooted
  · exact .inl ⟨T, ⟨named, there⟩, run⟩
  · refine .inr ?_
    have here : m.named (before ++ [segment]) = m.rawGet T (.str segment.toUTF8) := by
      rw [Machine.named_concat, show m.named before = .table T from named]
      rfl
    have stops : ∀ fault, (if m.rawGet T (.str segment.toUTF8) = .nil then
        create = false ∧ fault = .undefined p.text (stem (before ++ [segment]))
      else fault = .notTable p.text (stem (before ++ [segment]))) → p.Stops create m fault := by
      refine fun fault which => ⟨before, segment, after, split, ⟨T, named, there⟩, fun T' is => ?_,
        here ▸ which⟩
      rw [Machine.names_iff, here, none] at is
      cases is
    rw [walk, run]
    split
    · rename_i missing
      cases create with
      | false => exact .inr ⟨_, stops _ (by rw [if_pos missing]; exact ⟨rfl, rfl⟩), rfl⟩
      | true =>
        let m₁ := (m.newTable .empty).2.rawSet T (.str segment.toUTF8) (.table m.tables.size)
        have fresh : m₁.tables[m.tables.size]? = some (some .empty) := by
          rw [Machine.tables_rawSet, if_neg (Nat.ne_of_lt there.lt), Machine.tables_newTable,
            if_pos rfl]
        have latest : m₁.tables.size = m.tables.size + 1 := by
          simp [m₁, Machine.rawSet, Machine.modifyTable, Machine.newTable]
        obtain ⟨m', goes, chained⟩ := walkFrom_fresh p ([] ++ before ++ [segment]) fresh latest
        exact .inl ⟨rfl, before, segment, after, T, m', ⟨split, ⟨named, there⟩, here.trans missing⟩,
          goes, chained⟩
    · rename_i other
      exact .inr ⟨_, stops _ (by rw [if_neg other]; rfl), rfl⟩

/-- The shortest prefix that names no table is one only. -/
theorem shortest_unique {b b' a a' : List String} {c c' : String} (same : b ++ c :: a = b' ++ c' :: a')
    (here : ∃ T, m.Names b T) (none : ∀ T, ¬ m.Names (b ++ [c]) T)
    (here' : ∃ T, m.Names b' T) (none' : ∀ T, ¬ m.Names (b' ++ [c']) T) :
    b = b' ∧ c = c' ∧ a = a' := by
  have longer : ∀ {b b' a a' : List String} {c c' : String} (d : List String), b' = b ++ d →
      c :: a = d ++ c' :: a' → (∃ T, m.Names b' T) → (∀ T, ¬ m.Names (b ++ [c]) T) → d = [] := by
    intro b b' a a' c c' d split rest here' none
    cases d with
    | nil => rfl
    | cons e d =>
      obtain ⟨rfl, -⟩ := List.cons.inj rest
      obtain ⟨T, hT⟩ := here'
      rw [split, show b ++ c :: d = b ++ [c] ++ d by simp] at hT
      obtain ⟨id, hid⟩ := Machine.names_prefix hT
      exact absurd hid (none id)
  obtain ⟨d, split, rest⟩ | ⟨d, split, rest⟩ := List.append_eq_append_iff.mp same
  · obtain rfl := longer d split rest here' none
    rw [List.append_nil] at split
    obtain ⟨rfl, rfl⟩ := List.cons.inj rest
    exact ⟨split.symm, rfl, rfl⟩
  · obtain rfl := longer d split rest here none'
    rw [List.append_nil] at split
    obtain ⟨rfl, rfl⟩ := List.cons.inj rest
    exact ⟨split, rfl, rfl⟩

theorem Stops.unique (h : p.Stops create m fault) (h' : p.Stops create m fault') : fault = fault' := by
  obtain ⟨b, c, a, split, here, none, which⟩ := h
  obtain ⟨b', c', a', split', here', none', which'⟩ := h'
  obtain ⟨rfl, rfl, rfl⟩ := shortest_unique (split ▸ split') here none here' none'
  split at which
  · rename_i missing
    rw [if_pos missing] at which'
    exact which.2.trans which'.2.symm
  · rename_i other
    rw [if_neg other] at which'
    exact which.trans which'.symm

/-- A walk that stops comes to no table. -/
theorem Stops.not_named (h : p.Stops create m fault) : ¬ m.Names p.parents T := by
  obtain ⟨b, c, a, split, -, none, -⟩ := h
  intro named
  rw [split, show b ++ c :: a = b ++ [c] ++ a by simp] at named
  obtain ⟨id, hid⟩ := Machine.names_prefix named
  exact none id hid

theorem Stops.not_lacks (h : p.Stops true m fault) {before after : List String} {segment : String} :
    ¬ p.Lacks m before segment after T := by
  rintro ⟨split', named, missing⟩
  obtain ⟨b, c, a, split, here, none, which⟩ := h
  obtain ⟨rfl, rfl, rfl⟩ := shortest_unique (split ▸ split') here none ⟨T, named⟩
    fun _ => not_names_of_nil missing
  rw [if_pos missing] at which
  cases which.1

/-- A walk fails if, and only if, it stops; then nothing has changed. -/
theorem walk_error (rooted : m.Rooted) (fault : PathFault) :
    p.walk create m = (.error fault, m') ↔ p.Stops create m fault ∧ m' = m := by
  obtain ⟨T, named, run⟩ | ⟨rfl, before, segment, after, T, m₁, lacks, run, -⟩
    | ⟨fault', stops, run⟩ := walk_cases p create rooted
  · rw [run]
    exact ⟨nofun, fun h => absurd named h.1.not_named⟩
  · rw [run]
    exact ⟨nofun, fun h => absurd lacks h.1.not_lacks⟩
  · rw [run]
    refine ⟨fun eq => ?_, fun h => by rw [stops.unique h.1, h.2]⟩
    cases eq
    exact ⟨stops, rfl⟩

/-- Without new tables, a walk stops if, and only if, some prefix names no table. -/
theorem stops_iff (rooted : m.Rooted) : (∃ fault, p.Stops false m fault)
    ↔ ∃ first, first <+: p.parents ∧ ∀ T, ¬ m.Names first T := by
  constructor
  · rintro ⟨fault, b, c, a, split, -, none, -⟩
    exact ⟨b ++ [c], ⟨a, by rw [split]; simp⟩, none⟩
  · rintro ⟨first, ⟨rest, split⟩, none⟩
    obtain ⟨T, named, -⟩ | ⟨h, -⟩ | ⟨fault, stops, -⟩ := walk_cases p false rooted
    · rw [← split] at named
      obtain ⟨id, hid⟩ := Machine.names_prefix named
      exact absurd hid (none id)
    · cases h
    · exact ⟨fault, stops⟩

/-- With new tables, a walk stops if, and only if, some prefix that is reached through tables is
neither nil nor a table. -/
theorem stops_creating_iff : (∃ fault, p.Stops true m fault)
    ↔ ∃ first segment, first ++ [segment] <+: p.parents ∧ (∃ T, m.Names first T)
      ∧ m.named (first ++ [segment]) ≠ .nil ∧ ∀ T, ¬ m.Names (first ++ [segment]) T := by
  constructor
  · rintro ⟨fault, b, c, a, split, here, none, which⟩
    refine ⟨b, c, ⟨a, by rw [split]; simp⟩, here, fun missing => ?_, none⟩
    rw [if_pos missing] at which
    cases which.1
  · rintro ⟨b, c, ⟨a, split⟩, here, other, none⟩
    exact ⟨_, b, c, a, by rw [← split]; simp, here, none, by rw [if_neg other]⟩

/-- A path cannot be read if, and only if, a segment is empty. -/
theorem parse_error {text : String} {f : Failure} : parse text = .error f
    ↔ [] ∈ split text.toList ∧ f = .invalidPath (.malformed text) := by
  have empty : (split text.toList).any List.isEmpty = true ↔ [] ∈ split text.toList := by
    simp [List.any_eq_true]
  rw [parse]
  split
  · rename_i h
    exact ⟨fun eq => ⟨empty.mp h, (Except.error.inj eq).symm⟩, fun h => by rw [h.2]⟩
  · rename_i h
    have some : (split text.toList).map String.ofList ≠ [] := by
      simpa using split_ne_nil text.toList
    rw [ofSegments_of_ne_nil text some]
    exact ⟨nofun, fun h' => absurd (empty.mpr h'.1) h⟩

/-! ## Assignments by a path -/

/-- What an assignment by a path does to all tables: the value is put in the table that the path
leads to, or in the last of the tables that were missing. -/
def Sets (p : Path) (create : Bool) (m m' : Machine) (x : Script.Value) : Prop :=
  (∃ T, m.Names p.parents T ∧ Machine.Writes m m' T p.last x)
    ∨ create = true ∧ ∃ before segment after T, p.Lacks m before segment after T
      ∧ Machine.Grafts m m' T segment after p.last x

/-- Whether no segment on the way is read from the slot to which the path leads, unless the value
that is put there is there already. -/
def Straight (p : Path) (m : Machine) (x : Script.Value) : Prop :=
  ∀ before after T, p.parents = before ++ p.last :: after → m.named before = .table T →
    m.named p.parents = .table T → m.named (before ++ [p.last]) = x

/-- A value that is put into the table that a walk has come to. -/
theorem sets_of_walk {x : Script.Value} {objects : Machine} (rooted : m.Rooted)
    (walked : p.walk create m = (.ok T, m')) (heap : objects.tables = m'.tables) :
    p.Sets create m (m.withObjects (objects.rawSet T (.str p.last.toUTF8) x)) x := by
  have tables : (m.withObjects (objects.rawSet T (.str p.last.toUTF8) x)).tables
      = (m'.rawSet T (.str p.last.toUTF8) x).tables := by
    change (objects.tables.modify _ _) = m'.tables.modify _ _
    rw [heap]
  obtain ⟨T', named, run⟩ | ⟨created, before, segment, after, T', m₁, lacks, run, chained⟩
    | ⟨fault, -, run⟩ := walk_cases p create rooted
  · cases walked.symm.trans run
    exact .inl ⟨T, named, (Machine.writes_rawSet named.2 _ x).congr tables⟩
  · cases walked.symm.trans run
    have free : m.rawGet T' (.str segment.toUTF8) = .nil := by
      have missing := lacks.2.2
      rwa [Machine.named_concat, lacks.2.1.1] at missing
    exact .inr ⟨created, before, segment, after, T', lacks,
      (Machine.grafts_rawSet lacks.2.1.2 free chained _ x).congr tables⟩
  · cases walked.symm.trans run

/-- The path of an assignment names the value that was assigned. -/
theorem Sets.named {x : Script.Value} (h : p.Sets create m m' x) (globals : m'.globals = m.globals)
    (straight : p.Straight m x) :
    ∃ T, m'.Names p.parents T ∧ m'.rawGet T (.str p.last.toUTF8) = x := by
  obtain ⟨T, named, writes⟩ | ⟨-, before, segment, after, T, lacks, grafts⟩ := h
  · refine ⟨T, ⟨?_, (writes.tables T).mpr named.2⟩, writes.written⟩
    rw [writes.named globals, named.1]
    rintro before s after split here rfl
    exact straight before after T split here named.1
  · refine ⟨m.tables.size + after.length, ?_, ?_⟩
    · rw [lacks.1]
      exact grafts.named globals lacks.2.1
    · rw [grafts.last, if_pos rfl]

/-- The globals are still there after an assignment. -/
theorem Sets.rooted {x : Script.Value} (h : p.Sets create m m' x) (globals : m'.globals = m.globals)
    (rooted : m.Rooted) : m'.Rooted := by
  rw [Machine.Rooted, globals]
  obtain ⟨T, -, writes⟩ | ⟨-, before, segment, after, T, -, grafts⟩ := h
  · exact (writes.tables _).mpr rooted
  · exact (grafts.tables _).mpr (.inl rooted)

end Path

end ScriptBridge

import Mathlib.Algebra.Order.BigOperators.Group.List
import Mathlib.Algebra.Order.Group.Nat
import Mathlib.Data.List.Flatten
import ScriptBridge.Proofs.Stacks
import ScriptBridge.Proofs.Tables

/-!
# ScriptBridge.Proofs.Collection

Collections and the coroutines that wait for each other.  A collection follows references until
there is nothing new: `extent` is enough fuel, because every object is looked into at most once.  So
the running coroutine keeps the one that resumed it, that one its own resumer, and so on down to
the main thread.

Main facts:

* `Machine.Stacked.collect` — a collection leaves the frames alone;
* `Machine.Rooted.collect` — the globals are kept.
-/

namespace ScriptBridge.Script

open scoped CoreInstances

variable {m : Machine} {k k₀ : Marks} {n p : Node}

namespace Marks

theorem getD_set (a : Array Bool) (i j : Nat) :
    (a.setIfInBounds i true).getD j true = true ↔ a.getD j true = true ∨ j = i := by
  by_cases same : j = i
  · subst same
    by_cases bound : j < a.size
    · simp [bound]
    · simp [Array.getD_eq_getD_getElem?, bound]
  · simp [Array.getD_eq_getD_getElem?, Array.getElem?_setIfInBounds_ne (Ne.symm same), same]

/-- An object that is added is kept, with those that were. -/
theorem has_insert : (k.insert n).has p = true ↔ k.has p = true ∨ p = n := by
  cases n <;> cases p <;> simp only [insert, has, getD_set, reduceCtorEq, or_false,
    Node.table.injEq, Node.closure.injEq, Node.native.injEq, Node.userdata.injEq,
    Node.thread.injEq, Node.box.injEq]

/-- Whether every object has a mark. -/
structure Covers (k : Marks) (m : Machine) : Prop where
  tables : k.tables.size = m.tables.size
  closures : k.closures.size = m.closures.size
  natives : k.natives.size = m.natives.size
  userdata : k.userdata.size = m.userdata.size
  threads : k.threads.size = m.threads.size
  boxes : k.boxes.size = m.boxes.size

theorem covers_none (m : Machine) : (Marks.none m).Covers m := by
  constructor <;> exact Array.size_replicate

theorem Covers.insert (h : k.Covers m) (n : Node) : (k.insert n).Covers m := by
  cases n <;> constructor <;>
    first
    | exact h.tables | exact h.closures | exact h.natives
    | exact h.userdata | exact h.threads | exact h.boxes
    | exact Array.size_setIfInBounds.trans h.tables
    | exact Array.size_setIfInBounds.trans h.closures
    | exact Array.size_setIfInBounds.trans h.natives
    | exact Array.size_setIfInBounds.trans h.userdata
    | exact Array.size_setIfInBounds.trans h.threads
    | exact Array.size_setIfInBounds.trans h.boxes

theorem lt_of_getD {a : Array Bool} {i : Nat} (h : ¬ a.getD i true = true) : i < a.size := by
  by_contra out
  exact h (by simp [Array.getD_eq_getD_getElem?, Array.getElem?_eq_none (Nat.le_of_not_lt out)])

/-- What is not kept is an object that there is. -/
theorem Covers.mem_nodes (h : k.Covers m) (hn : ¬ k.has n = true) : n ∈ m.nodes := by
  cases n <;> simp only [has] at hn <;> have bound := lt_of_getD hn <;>
    simp [Machine.nodes, ← h.tables, ← h.closures, ← h.natives, ← h.userdata, ← h.threads,
      ← h.boxes, bound]

end Marks

namespace Table

variable {keep : Value → Value → Bool}

/-- Entries of an array that are not wanted any more are not found in it. -/
theorem sublist_mapIdx (key : Nat → Value) (wanted : Nat → Value → Bool) (vs : List Value) :
    ((vs.mapIdx fun i v => (key i, if wanted i v then v else .nil)).filter fun e => !e.2.isNil).Sublist
      ((vs.mapIdx fun i v => (key i, v)).filter fun e => !e.2.isNil) := by
  induction vs generalizing key wanted with
  | nil => exact .slnil
  | cons v vs ih =>
    have rest := ih (fun i => key (i + 1)) fun i => wanted (i + 1)
    rw [List.mapIdx_cons, List.mapIdx_cons, List.filter_cons, List.filter_cons]
    cases wanted 0 v with
    | true =>
      simp only [if_true]
      split
      · exact rest.cons_cons _
      · exact rest
    | false =>
      have none : (!(key 0, if false = true then v else Value.nil).2.isNil) = false := rfl
      rw [none]
      simp only [Bool.false_eq_true, if_false]
      split
      · exact rest.cons _
      · exact rest

/-- A table has no other entries after some were taken out. -/
theorem toList_filter (t : Table) : (t.filter keep).toList.Sublist t.toList := by
  refine List.Sublist.append ?_ ?_
  · rw [filter, Array.toList_mapIdx, List.mapIdx_mapIdx]
    exact sublist_mapIdx (fun i => .int (Int64.ofInt (i + 1)))
      (fun i v => keep (.int (Int64.ofInt (i + 1))) v) t.array.toList
  · rw [filter, Std.TreeMap.toList_filter]
    exact List.filter_sublist.map _

/-- Texts are not taken out of a table in which they are kept. -/
theorem getText_filter (spares : ∀ k s, keep k (.str s) = true) (t : Table) (text : String)
    (s : Bytes) : (t.filter keep).getText text = .str s ↔ t.getText text = .str s := by
  have apart : ∀ t : Table, t.position? (Key.ofText text) = none := fun t => t.position?_text _
  rw [getText, getText, getKey, getKey, apart, apart]
  dsimp only
  rw [filter, Std.TreeMap.getElem?_filter']
  cases t.entries[Key.ofText text]? with
  | none => rfl
  | some e =>
    cases kept : keep e.1 e.2 with
    | true => simp [Option.filter, kept]
    | false =>
      have other : e.2 ≠ .str s := by
        intro eq
        rw [eq, spares] at kept
        cases kept
      simp [Option.filter, kept, other]

end Table

namespace Machine

/-! ## Following references -/

/-- How many references are to be followed yet. -/
def pending (m : Machine) (k : Marks) : Nat :=
  ((m.nodes.filter fun n => !k.has n).map fun n => (m.successors n).length + 1).sum

theorem pending_le (m : Machine) (k : Marks) : m.pending k ≤ m.extent := by
  unfold pending extent
  induction m.nodes with
  | nil => exact Nat.le_refl _
  | cons n ns ih =>
    rw [List.filter_cons]
    split
    · simpa using ih
    · simp only [List.map_cons, List.sum_cons]
      exact Nat.le_add_left_of_le ih

/-- Once an object is kept, its references need not be followed again. -/
theorem pending_insert (h : k.Covers m) (hn : ¬ k.has n = true) :
    m.pending (k.insert n) + ((m.successors n).length + 1) ≤ m.pending k := by
  have fewer : ∀ ns : List Node,
      ((ns.filter fun p => !(k.insert n).has p).map fun p => (m.successors p).length + 1).sum
        + (if n ∈ ns then (m.successors n).length + 1 else 0)
      ≤ ((ns.filter fun p => !k.has p).map fun p => (m.successors p).length + 1).sum := by
    intro ns
    induction ns with
    | nil => simp
    | cons p ns ih =>
      by_cases same : p = n
      · subst same
        have added : (k.insert p).has p = true := Marks.has_insert.mpr (.inr rfl)
        simp only [List.filter_cons, added, hn, Bool.not_true, Bool.not_false, List.mem_cons,
          true_or, if_true, List.map_cons, List.sum_cons, Bool.false_eq_true, if_false]
        split at ih <;> omega
      · have iff : (k.insert n).has p = k.has p := by
          rw [Bool.eq_iff_iff, Marks.has_insert]
          simp [same]
        simp only [List.filter_cons, iff, List.mem_cons, Ne.symm same, false_or]
        split
        · simp only [List.map_cons, List.sum_cons]
          omega
        · exact ih
  have all := fewer m.nodes
  rwa [if_pos (h.mem_nodes hn)] at all

theorem propagate_has (fuel : Nat) (ns : List Node) (k : Marks) (h : k.has p = true) :
    (m.propagate fuel ns k).has p = true := by
  induction fuel generalizing ns k with
  | zero => exact h
  | succ fuel ih =>
    cases ns with
    | nil => exact h
    | cons n ns =>
      rw [propagate]
      split
      · exact ih _ _ h
      · exact ih _ _ (Marks.has_insert.mpr (.inl h))

/-- With fuel for all references, what is kept keeps what it refers to. -/
theorem propagate_closed (fuel : Nat) (ns : List Node) (k : Marks) (covers : k.Covers m)
    (enough : ns.length + m.pending k ≤ fuel)
    (follows : ∀ n, k.has n = true → ¬ k₀.has n = true → ∀ p ∈ m.successors n,
      k.has p = true ∨ p ∈ ns) :
    (∀ p ∈ ns, (m.propagate fuel ns k).has p = true) ∧
      ∀ n, (m.propagate fuel ns k).has n = true → ¬ k₀.has n = true → ∀ p ∈ m.successors n,
        (m.propagate fuel ns k).has p = true := by
  induction fuel generalizing ns k with
  | zero =>
    obtain rfl : ns = [] := List.length_eq_zero_iff.mp (by omega)
    refine ⟨nofun, fun n hn new p hp => ?_⟩
    obtain kept | none := follows n hn new p hp
    · exact kept
    · cases none
  | succ fuel ih =>
    cases ns with
    | nil =>
      refine ⟨nofun, fun n hn new p hp => ?_⟩
      obtain kept | none := follows n hn new p hp
      · exact kept
      · cases none
    | cons n ns =>
      rw [List.length_cons] at enough
      rw [propagate]
      split
      · rename_i kept
        obtain ⟨starts, closed⟩ := ih ns k covers (by omega) fun q hq new p hp => by
          obtain h | h := follows q hq new p hp
          · exact .inl h
          · obtain rfl | h := List.mem_cons.mp h
            · exact .inl kept
            · exact .inr h
        refine ⟨fun p hp => ?_, closed⟩
        obtain rfl | hp := List.mem_cons.mp hp
        · exact propagate_has fuel ns k kept
        · exact starts p hp
      · rename_i lacking
        have less := pending_insert covers lacking
        obtain ⟨starts, closed⟩ := ih (m.successors n ++ ns) (k.insert n) (covers.insert n)
          (by rw [List.length_append]; omega) fun q hq new p hp => by
            obtain h | rfl := Marks.has_insert.mp hq
            · obtain h | h := follows q h new p hp
              · exact .inl (Marks.has_insert.mpr (.inl h))
              · obtain rfl | h := List.mem_cons.mp h
                · exact .inl (Marks.has_insert.mpr (.inr rfl))
                · exact .inr (List.mem_append_right _ h)
            · exact .inr (List.mem_append_left _ hp)
        refine ⟨fun p hp => ?_, closed⟩
        obtain rfl | hp := List.mem_cons.mp hp
        · exact propagate_has fuel _ _ (Marks.has_insert.mpr (.inr rfl))
        · exact starts p (List.mem_append_right _ hp)

theorem propagate_covers (fuel : Nat) (ns : List Node) (k : Marks) (h : k.Covers m) :
    (m.propagate fuel ns k).Covers m := by
  induction fuel generalizing ns k with
  | zero => exact h
  | succ fuel ih =>
    cases ns with
    | nil => exact h
    | cons n ns =>
      rw [propagate]
      split
      · exact ih _ _ h
      · exact ih _ _ (h.insert n)

theorem converge_has (bound fuel : Nat) (k : Marks) (h : k.has p = true) :
    (m.converge bound fuel k).has p = true := by
  induction fuel generalizing k with
  | zero => exact h
  | succ fuel ih =>
    rw [converge]
    split
    · exact h
    · exact ih _ (propagate_has _ _ _ h)

theorem keep_has (bound : Nat) (starts : List Node) (k : Marks) (h : k.has p = true) :
    (m.keep bound starts k).has p = true := converge_has _ _ _ (propagate_has _ _ _ h)

/-- Whether host functions, and functions of the runtime with values of their own, keep what they refer
to. -/
def Shelters (m : Machine) (k : Marks) : Prop :=
  ∀ i, k.has (.native i) = true → ∀ p ∈ m.successors (.native i), k.has p = true

variable {bound : Nat}

theorem Shelters.propagate (h : m.Shelters k) (covers : k.Covers m) (enough : m.extent ≤ bound)
    (ns : List Node) : m.Shelters (m.propagate (bound + ns.length) ns k) := by
  have since : ∀ n, k.has n = true → ¬ k.has n = true → ∀ p ∈ m.successors n,
      k.has p = true ∨ p ∈ ns := fun n hn new => absurd hn new
  obtain ⟨-, closed⟩ := propagate_closed (bound + ns.length) ns k covers
    (by have := m.pending_le k; omega) since
  intro i hi p hp
  by_cases old : k.has (.native i) = true
  · exact propagate_has _ _ _ (h i old p hp)
  · exact closed _ hi old p hp

theorem Shelters.converge (h : m.Shelters k) (covers : k.Covers m) (enough : m.extent ≤ bound)
    (fuel : Nat) : m.Shelters (m.converge bound fuel k) := by
  induction fuel generalizing k with
  | zero => exact h
  | succ fuel ih =>
    rw [Machine.converge]
    split
    · exact h
    · exact ih (h.propagate covers enough _) (propagate_covers _ _ _ covers)

theorem Shelters.keep (h : m.Shelters k) (covers : k.Covers m) (enough : m.extent ≤ bound)
    (starts : List Node) : m.Shelters (m.keep bound starts k) :=
  (h.propagate covers enough starts).converge (propagate_covers _ _ _ covers) enough bound

theorem converge_covers (bound fuel : Nat) (k : Marks) (h : k.Covers m) :
    (m.converge bound fuel k).Covers m := by
  induction fuel generalizing k with
  | zero => exact h
  | succ fuel ih =>
    rw [converge]
    split
    · exact h
    · exact ih _ (propagate_covers _ _ _ h)

/-- What is not there keeps nothing. -/
theorem shelters_none (m : Machine) : m.Shelters (.none m) := by
  intro i hi p hp
  have beyond : m.natives.size ≤ i := by
    by_contra inside
    simp [Marks.none, Marks.has, Nat.lt_of_not_le inside] at hi
  simp [successors, native, Array.getD_eq_getD_getElem?, Array.getElem?_eq_none beyond, nodesOf,
    default] at hp

/-- What a collection keeps before it looks at weak keys. -/
def reached (m : Machine) (anchors : List Value) : Marks :=
  m.propagate (m.extent + (m.roots anchors).length) (m.roots anchors) (.none m)

theorem reached_closed (anchors : List Value) :
    (∀ p ∈ m.roots anchors, (m.reached anchors).has p = true) ∧
      ∀ n, (m.reached anchors).has n = true → ¬ (Marks.none m).has n = true →
        ∀ p ∈ m.successors n, (m.reached anchors).has p = true :=
  propagate_closed _ _ _ (Marks.covers_none m)
    (by have := m.pending_le (.none m); omega) fun n hn new => absurd hn new

/-! ## Coroutines that wait -/

variable {anchors : List Value} {S : Spine} {c : ThreadId}

/-- A coroutine that is there begins without a mark. -/
theorem lacking_none {t : Thread} (h : m.thread? c = some t) :
    ¬ (Marks.none m).has (.thread c) = true := by
  have bound : c < m.threads.size := by
    by_contra out
    rw [thread?, Array.getD_eq_getD_getElem?, Array.getElem?_eq_none (Nat.le_of_not_lt out)] at h
    cases h
  simp [Marks.none, Marks.has, bound]

/-- The coroutines that wait for one that is kept are kept. -/
theorem Waits.reached (h : m.Waits c S) (kept : (m.reached anchors).has (.thread c) = true) :
    ∀ q ∈ S, (m.reached anchors).has (.thread q.1) = true := by
  induction h with
  | main => simp
  | @more c r S co t f rest other here active resumer there frames waits pile apart below ih =>
    have next : (m.reached anchors).has (.thread r) = true := by
      refine (reached_closed anchors).2 _ kept (lacking_none here) _ ?_
      simp [successors, thread_of here, resumer]
    intro q hq
    obtain hq | hq := List.mem_append.mp hq
    · obtain ⟨g, -, rfl⟩ := List.mem_map.mp hq
      exact next
    · exact ih next q hq

/-! ## Entries of weak tables -/

variable {m' m'' : Machine}

/-- Whether entries were taken out of tables, but no texts, which tell how weak a table is. -/
structure Thins (m m' : Machine) : Prop where
  aside : ∃ tables, m' = { m with tables := tables }
  size : m'.tables.size = m.tables.size
  metatable : ∀ id, (m'.table id).metatable = (m.table id).metatable
  texts : ∀ id text s, (m'.table id).getText text = .str s ↔ (m.table id).getText text = .str s
  entries : ∀ id, (m'.table id).toList.Sublist (m.table id).toList

theorem Thins.refl (m : Machine) : m.Thins m :=
  ⟨⟨m.tables, rfl⟩, rfl, fun _ => rfl, fun _ _ _ => .rfl, fun _ => .refl _⟩

theorem Thins.trans (h : m.Thins m') (h' : m'.Thins m'') : m.Thins m'' where
  aside := by
    obtain ⟨tables, rfl⟩ := h.aside
    obtain ⟨tables', rfl⟩ := h'.aside
    exact ⟨tables', rfl⟩
  size := h'.size.trans h.size
  metatable := fun id => (h'.metatable id).trans (h.metatable id)
  texts := fun id text s => (h'.texts id text s).trans (h.texts id text s)
  entries := fun id => (h'.entries id).trans (h.entries id)

theorem thins_modifyTable {keep : Value → Value → Bool} (spares : ∀ k s, keep k (.str s) = true)
    (m : Machine) (id : TableId) : m.Thins (m.modifyTable id fun t => t.filter keep) := by
  have tables : ∀ j, (m.modifyTable id fun t => t.filter keep).table j = m.table j
      ∨ (m.modifyTable id fun t => t.filter keep).table j = (m.table j).filter keep := by
    intro j
    rw [table, table, modifyTable, Array.getD_eq_getD_getElem?, Array.getD_eq_getD_getElem?,
      Array.getElem?_modify]
    split
    · cases m.tables[j]? with
      | none => exact .inl rfl
      | some t =>
        cases t with
        | none => exact .inl rfl
        | some t => exact .inr rfl
    · exact .inl rfl
  refine ⟨⟨_, rfl⟩, Array.size_modify, fun j => ?_, fun j text s => ?_, fun j => ?_⟩
  · obtain eq | eq := tables j <;> rw [eq]
    rfl
  · obtain eq | eq := tables j <;> rw [eq]
    exact Table.getText_filter spares _ text s
  · obtain eq | eq := tables j <;> rw [eq]
    exact Table.toList_filter _

theorem thins_filterTables {keep : Value → Value → Bool} (spares : ∀ k s, keep k (.str s) = true)
    (m : Machine) (ids : List TableId) : m.Thins (m.filterTables ids keep) := by
  unfold filterTables
  induction ids generalizing m with
  | nil => exact .refl m
  | cons id ids ih => exact (thins_modifyTable spares m id).trans (ih _)

theorem Thins.weakness (h : m.Thins m') (id : TableId) :
    m'.weakness (m'.table id) = m.weakness (m.table id) := by
  rw [Machine.weakness, Machine.weakness, h.metatable]
  cases (m.table id).metatable with
  | none => rfl
  | some meta' =>
    dsimp only
    cases text : (m.table meta').getText "__mode" with
    | str s => rw [(h.texts meta' "__mode" s).mpr text]
    | _ =>
      cases text' : (m'.table meta').getText "__mode" with
      | str s => rw [(h.texts meta' "__mode" s).mp text'] at text; cases text
      | _ => rfl

/-- There are no more references to be followed after entries were taken out. -/
theorem Thins.extent (h : m.Thins m') : m'.extent ≤ m.extent := by
  have nodes : m'.nodes = m.nodes := by
    obtain ⟨tables, eq⟩ := h.aside
    have size := h.size
    subst eq
    rw [Machine.nodes, Machine.nodes, size]
  have fewer : ∀ n, (m'.successors n).length ≤ (m.successors n).length := by
    intro n
    cases n with
    | table id =>
      have entries : ∀ f : Value × Value → List Node,
          ((m'.table id).toList.flatMap f).length ≤ ((m.table id).toList.flatMap f).length :=
        fun f => ((h.entries id).flatMap f).length_le
      rw [successors, successors, h.weakness, h.metatable]
      obtain ⟨keys, values⟩ := m.weakness (m.table id)
      cases keys <;> cases values <;> simp only [List.length_append]
      · exact Nat.add_le_add_left (entries _) _
      · exact Nat.add_le_add_left (entries _) _
      · exact Nat.le_refl _
      · exact Nat.le_refl _
    | _ =>
      obtain ⟨tables, rfl⟩ := h.aside
      exact Nat.le_refl _
  rw [Machine.extent, Machine.extent, nodes]
  exact List.sum_le_sum fun n _ => Nat.add_le_add_right (fewer n) 1

theorem Thins.covers (h : m.Thins m') (covers : k.Covers m) : k.Covers m' := by
  obtain ⟨tables, eq⟩ := h.aside
  have size := h.size
  subst eq
  exact ⟨covers.tables.trans size.symm, covers.closures, covers.natives, covers.userdata,
    covers.threads, covers.boxes⟩

/-! ## The objects that are there afterwards -/

/-- What a collection does. -/
structure Collected (m m' : Machine) (k : Marks) : Prop where
  frames : m'.frames = m.frames
  current : m'.current = m.current
  closing : m'.closing = m.closing
  mode : m'.mode = m.mode
  collecting : m'.collecting = m.collecting
  handleMetatable : m'.handleMetatable = m.handleMetatable
  threads : ∀ c, m'.thread? c = if k.has (.thread c) then m.thread? c else none
  natives : ∀ i, m'.natives[i]? = m.natives[i]?.map fun o => if k.has (.native i) then o else none
  userdata : ∀ i, m'.userdata[i]? = m.userdata[i]?.map fun o => if k.has (.userdata i) then o else none
  due : ∃ lost, m'.due = m.due ++ lost
  shelters : m.Shelters k
  globals : m'.globals = m.globals
  tables : ∀ id, m.HasTable id → k.has (.table id) = true → m'.HasTable id

/-- No table goes when entries are taken out of some. -/
theorem HasTable.filterTables {id : TableId} (h : m.HasTable id) (ids : List TableId)
    (keep : Value → Value → Bool) : (m.filterTables ids keep).HasTable id := by
  unfold Machine.filterTables
  induction ids generalizing m with
  | nil => exact h
  | cons j ids ih => exact ih (h.modifyTable j _)

theorem filterTables_eq (m : Machine) (ids : List TableId) (keep : Value → Value → Bool) :
    ∃ tables, m.filterTables ids keep = { m with tables := tables } := by
  unfold filterTables
  induction ids generalizing m with
  | nil => exact ⟨m.tables, rfl⟩
  | cons id ids ih =>
    obtain ⟨tables, eq⟩ := ih (m.modifyTable id fun t => t.filter keep)
    exact ⟨tables, by rw [List.foldl_cons, eq]; rfl⟩

theorem getElem?_clean {α : Type} (objects : Array (Option α)) (kept : Array Bool) (i : Nat) :
    (objects.mapIdx fun i o => if kept.getD i true then o else none)[i]?
      = objects[i]?.map fun o => if kept.getD i true then o else none := Array.getElem?_mapIdx

theorem collect_collected (m : Machine) (anchors : List Value) :
    ∃ k : Marks, (∀ p, (m.reached anchors).has p = true → k.has p = true)
      ∧ m.Collected (m.collect anchors) k := by
  unfold collect
  dsimp only
  generalize hs : m.keep m.extent (m.roots anchors) (.none m) = strong
  have first : ∀ p, (m.reached anchors).has p = true → strong.has p = true := by
    intro p hp
    rw [← hs]
    exact converge_has _ _ _ hp
  have covers := converge_covers m.extent m.extent _ (propagate_covers
    (m.extent + (m.roots anchors).length) (m.roots anchors) _ (Marks.covers_none m))
  have sheltered := m.shelters_none.keep (Marks.covers_none m) (Nat.le_refl _) (m.roots anchors)
  rw [show m.converge m.extent m.extent _ = strong from hs] at covers
  rw [hs] at sheltered
  have thins : m.Thins (m.filterTables (m.keptTables strong (·.2)) fun _ v => !strong.lacks v) :=
    m.thins_filterTables (fun _ _ => rfl) _
  obtain ⟨tables, eq⟩ := thins.aside
  rw [eq] at thins ⊢
  have stay : ∀ id, m.HasTable id → ({ m with tables := tables } : Machine).HasTable id :=
    fun id h => eq ▸ h.filterTables _ _
  generalize hm : ({ m with tables := tables } : Machine) = m₁ at thins stay
  generalize hk : m₁.keep m.extent _ strong = k
  have shelters₁ : m₁.Shelters k := by
    rw [← hk]
    refine Shelters.keep ?_ (thins.covers covers) thins.extent _
    rw [← hm]
    exact sheltered
  obtain ⟨tables₂, eq₂⟩ := m₁.filterTables_eq (m₁.keptTables k (·.1)) fun key _ => !k.lacks key
  have stay₂ : ∀ id, m.HasTable id → ({ m₁ with tables := tables₂ } : Machine).HasTable id :=
    fun id h => eq₂ ▸ (stay id h).filterTables _ _
  rw [eq₂]
  generalize hm₂ : ({ m₁ with tables := tables₂ } : Machine) = m₂ at stay₂
  generalize List.filter _ (m₂.keptTables k _) = revived
  obtain ⟨tables₃, eq₃⟩ := m₂.filterTables_eq revived fun _ v => !k.lacks v
  have stay₃ : ∀ id, m.HasTable id → ({ m₂ with tables := tables₃ } : Machine).HasTable id :=
    fun id h => eq₃ ▸ (stay₂ id h).filterTables _ _
  have shelters : m.Shelters k := by
    rw [← hm] at shelters₁
    exact shelters₁
  rw [eq₃, ← hm₂, ← hm]
  refine ⟨k, fun p hp => ?_, rfl, rfl, rfl, rfl, rfl, rfl, fun c => ?_, fun i => getElem?_clean _ _ i,
    fun i => getElem?_clean _ _ i, ⟨_, rfl⟩, shelters, rfl, fun id there kept => ?_⟩
  · rw [← hk]
    exact keep_has _ _ _ (first p hp)
  · simp only [thread?, sweep, Marks.has, Array.getD_eq_getD_getElem?, Array.getElem?_mapIdx]
    cases hc : m.threads[c]? with
    | none => simp
    | some t => simp
  · obtain ⟨t, ht⟩ := stay₃ id there
    refine ⟨t, (getElem?_clean _ _ id).trans ?_⟩
    rw [show tables₃[id]? = some (some t) from ht, Option.map_some]
    exact congrArg some (if_pos kept)

/-- The globals are always kept. -/
theorem Rooted.collect (h : m.Rooted) (anchors : List Value) : (m.collect anchors).Rooted := by
  obtain ⟨k, reached, collected⟩ := m.collect_collected anchors
  obtain ⟨starts, -⟩ := reached_closed (m := m) anchors
  rw [Rooted, collected.globals]
  exact collected.tables _ h (reached _ (starts (.table m.globals) (by simp [roots])))

/-- A collection leaves the frames alone. -/
theorem Stacked.collect (h : m.Stacked S) (anchors : List Value) :
    (m.collect anchors).Stacked S ∧ (m.collect anchors).spine S = m.spine S := by
  obtain ⟨k, reached, collected⟩ := m.collect_collected anchors
  obtain ⟨starts, -⟩ := reached_closed (m := m) anchors
  have current := starts (.thread m.current) (by simp [roots])
  have main := starts (.thread Machine.main) (by simp [roots])
  have below := h.waits.reached current
  have same : ∀ c, (m.reached anchors).has (.thread c) = true →
      (m.collect anchors).thread? c = m.thread? c := fun c hc => by
    rw [collected.threads, if_pos (reached _ hc)]
  refine ⟨⟨?_, ?_, ?_, ?_⟩, by rw [spine, spine, collected.frames, collected.current]⟩
  · rw [collected.current]
    exact h.waits.congr collected.closing
      (fun co hco => ⟨co, (same _ current).trans hco, rfl, rfl⟩) fun q hq => same _ (below q hq)
  · rw [rootOf, collected.closing, collected.current, collected.frames]
    exact h.pile
  · intro c t ht suspended
    rw [collected.threads] at ht
    split at ht
    · exact h.parked c t ht suspended
    · cases ht
  · obtain ⟨t, ht, active⟩ := h.main
    exact ⟨t, (same _ main).trans ht, active⟩

end Machine

end ScriptBridge.Script

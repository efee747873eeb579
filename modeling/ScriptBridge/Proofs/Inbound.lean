import ScriptBridge.Proofs.Freeing

/-!
# ScriptBridge.Proofs.Inbound

An array of cells from the runtime becomes host values, or none of it does.  `Session.takeAll` takes
the cells out of the slots of the array one after the other, and leaves the slots behind the first
cell that cannot be read; `Session.unpackAll` is that, and then the array goes with what is left in
its slots.  Each cell is owned by its slot, or by the value that it became, or it has been released.

Main facts:

* `Session.unpackAll_run` — what remains in the slots is released at the end;
* `Session.unpackAll_all` — all cells become values, or all cells are released, each of them once.
-/

namespace ScriptBridge.Session

variable {s s' s₁ : Session} {cs ds : List (Option CellId)} {c : Option CellId} {k : CellId}
  {v : Value} {vs : List Value} {f : Failure}

/-! ## Slots -/

/-- Makes host values of the cells in slots from position `index` on, and takes each of them out of
its slot; `done` are those before.  If one cannot be read, these go, and the slots that follow are
left as they are.  What is in the slots then is handed over, too. -/
def takeFrom : (index : Nat) → (done : List Value) → List (Option CellId) →
    Op (Except Failure (List Value) × List (Option CellId))
  | _, done, [] => return (.ok done.reverse, [])
  | index, done, slot :: rest => do
    match ← (unpack slot).run with
    | .ok v =>
      let (r, slots) ← takeFrom (index + 1) (v :: done) rest
      return (r, none :: slots)
    | .error f =>
      forget done.reverse
      return (.error (f.ofItem index), none :: rest)

/-- Makes host values of the cells in the slots of an array. -/
def takeAll (slots : List (Option CellId)) : Op (Except Failure (List Value) × List (Option CellId)) :=
  takeFrom 0 [] slots

theorem freeAll_append (cs ds : List (Option CellId)) (s : Session) :
    (freeAll (cs ++ ds)).run s = (freeAll ds).run ((freeAll cs).run s).2 := by
  induction cs generalizing s with
  | nil => rfl
  | cons c cs ih =>
    cases c with
    | none => exact ih s
    | some k => exact ih _

/-- Empty slots own nothing. -/
theorem freeAll_empty (cs : List (Option CellId)) (s : Session) :
    (freeAll (cs.map fun _ => none)).run s = ((), s) := by
  induction cs with
  | nil => rfl
  | cons c cs ih => exact ih

theorem freeAll_cons (c : Option CellId) (cs : List (Option CellId)) (s : Session) :
    (freeAll (c :: cs)).run s = (freeAll cs).run ((freeAll [c]).run s).2 :=
  freeAll_append [c] cs s

/-- Values that are dropped give back the cells that they own. -/
theorem forget_eq (vs : List Value) (s : Session) :
    (forget vs).run s = (freeAll (vs.map fun v => v.ref?.map Ref.cell)).run s := by
  induction vs generalizing s with
  | nil => rfl
  | cons v vs ih =>
    rw [forget, List.map_cons]
    cases v.ref? with
    | none => exact ih s
    | some r => exact ih _

/-- What remains in the slots is released at the end. -/
theorem unpackFrom_eq (index : Nat) (done : List Value) (cs : List (Option CellId)) (s : Session) :
    (unpackFrom index done cs).run.run s
      = (((takeFrom index done cs).run s).1.1,
        ((freeAll ((takeFrom index done cs).run s).1.2).run ((takeFrom index done cs).run s).2).2) := by
  induction cs generalizing index done s with
  | nil => rfl
  | cons c cs ih =>
    obtain ⟨⟨r, s₁⟩, run⟩ : ∃ p, (unpack c).run.run s = p := ⟨_, rfl⟩
    rw [takeFrom, stateM_run_bind, run]
    cases r with
    | ok v =>
      rw [unpackFrom, try_bind_ok (try_tryCatch_ok run), ih]
      rfl
    | error f =>
      rw [unpackFrom]
      refine try_bind_error ?_
      rw [ExceptT.run_tryCatch, stateM_run_bind, run]
      rfl

/-! ## What a cell is for the host -/

/-- The host value of a cell. -/
def hostValue (s : Session) : Option CellId → Except Failure Value
  | none => .ok .nil
  | some k =>
    match s.cell? k with
    | none => .ok .nil
    | some (.number x) => .ok (.number x)
    | some (.boolean b) => .ok (.boolean b)
    | some (.string bytes) =>
      match Utf8.decode bytes with
      | .ok text => .ok (.string text)
      | .error fault => .error (.unsupportedType (.notText fault))
    | some (.function _ false) => .ok (.function (s.refTo k))
    | some _ => .ok (.reference (s.refTo k))

/-- Whether the value of a cell is copied, so that the cell is released at once. -/
def copies (s : Session) (c : Option CellId) : Bool :=
  (c.bind s.cell?).any fun c => c.anchor?.isNone && c.handle?.isNone

/-- The cells in slots that are owned by references when they have been read. -/
def keptOf (s : Session) (cs : List (Option CellId)) : List (Option CellId) :=
  cs.map fun c => if s.copies c then none else c

/-- A cell is read, and released if its value was copied. -/
theorem unpack_run (s : Session) (c : Option CellId) :
    (unpack c).run.run s
      = (s.hostValue c, ((freeAll ([c].filter s.copies)).run s).2) := by
  cases c with
  | none => rfl
  | some k =>
    have copied : s.copies (some k)
        = (s.cell? k).any fun c => c.anchor?.isNone && c.handle?.isNone := rfl
    rw [unpack, try_get_bind, hostValue, List.filter_singleton, copied]
    cases s.cell? k with
    | none => rfl
    | some d =>
      cases d with
      | number | boolean => rfl
      | string bytes =>
        simp only
        cases Utf8.decode bytes <;> rfl
      | function a native => cases native <;> rfl
      | pinned | object => rfl

/-- A value owns the cell that it was made of, unless it was copied. -/
theorem hostValue_ref {d : Cell} (there : ∀ k, c = some k → s.cell? k = some d ∧ d.handle? = none)
    (h : s.hostValue c = .ok v) :
    v.ref?.map Ref.cell = (if s.copies c then none else c)
      ∧ ∀ r, v.ref? = some r → r = s.refTo r.cell := by
  cases c with
  | none =>
    cases h
    exact ⟨rfl, nofun⟩
  | some k =>
    obtain ⟨hk, unpinned⟩ := there k rfl
    have copied : s.copies (some k) = (d.anchor?.isNone && d.handle?.isNone) := by
      change ((s.cell? k).any _) = _
      rw [hk]
      rfl
    have own : (some (s.refTo k)).map Ref.cell = some k := by rw [Option.map_some, cell_refTo]
    have self : ∀ r, some (s.refTo k) = some r → r = s.refTo r.cell := by
      rintro r ⟨⟩
      rw [cell_refTo]
    rw [copied]
    rw [hostValue, hk] at h
    cases d with
    | number | boolean =>
      cases h
      exact ⟨rfl, nofun⟩
    | string bytes =>
      simp only at h
      cases read : Utf8.decode bytes with
      | ok text =>
        rw [read] at h
        cases h
        exact ⟨rfl, nofun⟩
      | error fault => rw [read] at h; cases h
    | function a native =>
      cases native <;> cases h <;> exact ⟨own, self⟩
    | object a kind =>
      cases h
      exact ⟨own, self⟩
    | pinned handle => cases unpinned

/-- A cell that cannot be read is released at once. -/
theorem copies_of_error (h : s.hostValue c = .error f) : s.copies c = true ∧ ∃ k bytes fault,
    c = some k ∧ s.cell? k = some (.string bytes) ∧ Utf8.decode bytes = .error fault
      ∧ f = .unsupportedType (.notText fault) := by
  cases c with
  | none => cases h
  | some k =>
    have copied : s.copies (some k)
        = (s.cell? k).any fun c => c.anchor?.isNone && c.handle?.isNone := rfl
    rw [copied]
    rw [hostValue] at h
    cases hk : s.cell? k with
    | none => rw [hk] at h; cases h
    | some d =>
      rw [hk] at h
      cases d with
      | string bytes =>
        simp only at h
        cases read : Utf8.decode bytes with
        | ok text => rw [read] at h; cases h
        | error fault =>
          rw [read] at h
          cases h
          exact ⟨rfl, k, bytes, fault, rfl, hk, read, rfl⟩
      | function a native => cases native <;> cases h
      | _ => cases h

/-- What a cell is does not depend on others. -/
theorem hostValue_congr (id : s'.id = s.id) (same : c.bind s'.cell? = c.bind s.cell?) :
    s'.hostValue c = s.hostValue c ∧ s'.copies c = s.copies c := by
  refine ⟨?_, by rw [copies, same, copies]⟩
  cases c with
  | none => rfl
  | some k =>
    have here : s'.cell? k = s.cell? k := same
    rw [hostValue, hostValue, refTo_congr id here, here]

/-- Cells that are not released are read as before. -/
theorem Freed.still {s' : Session} (h : s.Freed ds s') (apart : ∀ k, c = some k → some k ∉ ds) :
    s'.hostValue c = s.hostValue c ∧ s'.copies c = s.copies c := by
  refine hostValue_congr h.id ?_
  cases c with
  | none => rfl
  | some k =>
    change s'.cell? k = s.cell? k
    rw [h.cells, if_neg (apart k rfl)]

/-! ## Arrays -/

/-- After one cell has been taken, those that follow are read as before. -/
theorem still_next (apart : Apart (c :: cs)) :
    ∀ d ∈ cs, ((freeAll ([c].filter s.copies)).run s).2.hostValue d = s.hostValue d
      ∧ ((freeAll ([c].filter s.copies)).run s).2.copies d = s.copies d := by
  intro d hd
  have one : Apart ([c].filter s.copies) := (List.pairwise_singleton _ c).filter _
  refine (freed_freeAll s one).still fun k hk there => ?_
  have here : c = some k := (List.mem_singleton.mp (List.mem_filter.mp there).1).symm
  exact (List.pairwise_cons.mp apart).1 d hd k here hk

/-- All cells are taken out of their slots, if all can be read. -/
theorem takeFrom_ok {index : Nat} {done : List Value} (apart : Apart cs)
    (read : ∀ c ∈ cs, ∃ v, s.hostValue c = .ok v) :
    ∃ vs, List.Forall₂ (fun c v => s.hostValue c = .ok v) cs vs
      ∧ (takeFrom index done cs).run s
        = ((.ok (done.reverse ++ vs), cs.map fun _ => none),
          ((freeAll (cs.filter s.copies)).run s).2) := by
  induction cs generalizing s index done with
  | nil => exact ⟨[], .nil, by rw [List.append_nil]; rfl⟩
  | cons c cs ih =>
    rw [List.forall_mem_cons] at read
    obtain ⟨⟨v, hv⟩, read⟩ := read
    set s₁ := ((freeAll ([c].filter s.copies)).run s).2 with hs₁
    have still : ∀ d ∈ cs, s₁.hostValue d = s.hostValue d ∧ s₁.copies d = s.copies d :=
      still_next apart
    obtain ⟨vs, values, run⟩ := @ih s₁ (index + 1) (v :: done) (List.pairwise_cons.mp apart).2
      fun d hd => by
        rw [(still d hd).1]
        exact read d hd
    have first : (unpack c).run.run s = (.ok v, s₁) := by rw [unpack_run, hv]
    refine ⟨v :: vs, .cons hv (((List.forall₂_and_left _ _).mpr ⟨fun d hd => (still d hd).1,
      values⟩).imp fun d u h => h.1.symm.trans h.2), ?_⟩
    have filter : cs.filter s₁.copies = cs.filter s.copies :=
      List.filter_congr fun d hd => (still d hd).2
    rw [takeFrom, stateM_run_bind, first]
    simp only
    rw [stateM_run_bind, run, filter, hs₁, ← freeAll_append, ← List.filter_append,
      List.reverse_cons, List.append_assoc]
    rfl

/-- The first cell that cannot be read is released, with those that were before it. -/
theorem takeFrom_error {index : Nat} {done : List Value} {rest : List (Option CellId)}
    (apart : Apart (cs ++ c :: rest)) (read : ∀ c ∈ cs, ∃ v, s.hostValue c = .ok v)
    (fails : s.hostValue c = .error f) :
    ∃ vs, List.Forall₂ (fun c v => s.hostValue c = .ok v) cs vs
      ∧ (takeFrom index done (cs ++ c :: rest)).run s
        = ((.error (f.ofItem (index + cs.length)), (cs.map fun _ => none) ++ none :: rest),
          ((freeAll (cs.filter s.copies ++ c :: (done.reverse ++ vs).map fun v =>
            v.ref?.map Ref.cell)).run s).2) := by
  induction cs generalizing s index done with
  | nil =>
    have first : (unpack c).run.run s = (.error f, ((freeAll [c]).run s).2) := by
      rw [unpack_run, fails, List.filter_cons_of_pos (copies_of_error fails).1]
      rfl
    refine ⟨[], .nil, ?_⟩
    rw [List.nil_append, takeFrom, stateM_run_bind, first]
    simp only
    rw [stateM_run_bind, forget_eq, List.append_nil, List.filter_nil, List.nil_append,
      freeAll_cons c (done.reverse.map _)]
    rfl
  | cons d cs ih =>
    rw [List.forall_mem_cons] at read
    obtain ⟨⟨v, hv⟩, read⟩ := read
    set s₁ := ((freeAll ([d].filter s.copies)).run s).2 with hs₁
    have still : ∀ e ∈ cs ++ c :: rest, s₁.hostValue e = s.hostValue e
        ∧ s₁.copies e = s.copies e := still_next apart
    have before : ∀ e ∈ cs, e ∈ cs ++ c :: rest := fun e he => List.mem_append_left _ he
    obtain ⟨vs, values, run⟩ := @ih s₁ (index + 1) (v :: done) (List.pairwise_cons.mp apart).2
      (fun e he => by
        rw [(still e (before e he)).1]
        exact read e he)
      (by rw [(still c (List.mem_append_right _ List.mem_cons_self)).1, fails])
    have first : (unpack d).run.run s = (.ok v, s₁) := by rw [unpack_run, hv]
    refine ⟨v :: vs, .cons hv (((List.forall₂_and_left _ _).mpr ⟨fun e he =>
      (still e (before e he)).1, values⟩).imp fun e u h => h.1.symm.trans h.2), ?_⟩
    have filter : cs.filter s₁.copies = cs.filter s.copies :=
      List.filter_congr fun e he => (still e (before e he)).2
    have split : (d :: cs).filter s.copies = [d].filter s.copies ++ cs.filter s.copies := by
      rw [← List.filter_append, List.singleton_append]
    rw [List.cons_append, takeFrom, stateM_run_bind, first]
    simp only
    rw [stateM_run_bind, run, filter, hs₁, ← freeAll_append, ← List.append_assoc, split,
      List.reverse_cons, List.append_assoc done.reverse, List.length_cons, Nat.add_assoc,
      Nat.add_comm 1]
    rfl

/-! ## What becomes of an array -/

/-- Cells that are released at once and those that values own are all there are. -/
theorem perm_kept (s : Session) (cs : List (Option CellId)) :
    (cs.filter s.copies ++ s.keptOf cs).reduceOption.Perm cs.reduceOption := by
  induction cs with
  | nil => exact .nil
  | cons c cs ih =>
    rw [keptOf, List.map_cons, ← keptOf, List.reduceOption_append] at *
    cases copied : s.copies c with
    | true =>
      rw [List.filter_cons_of_pos copied, if_pos rfl]
      cases c with
      | none => cases copied
      | some k => exact ih.cons k
    | false =>
      rw [List.filter_cons_of_neg (by rw [copied]; exact Bool.false_ne_true),
        if_neg Bool.false_ne_true]
      cases c with
      | none => exact ih
      | some k => exact List.perm_middle.trans (ih.cons k)

/-- Values own the cells that they were made of, unless these were copied. -/
theorem owned_cells (there : ∀ k, some k ∈ cs → ∃ d, s.cell? k = some d ∧ d.handle? = none)
    (h : List.Forall₂ (fun c v => s.hostValue c = .ok v) cs vs) :
    vs.map (fun v => v.ref?.map Ref.cell) = s.keptOf cs
      ∧ ∀ v ∈ vs, ∀ r, v.ref? = some r → r = s.refTo r.cell := by
  induction h with
  | nil => exact ⟨rfl, nofun⟩
  | @cons c v cs vs head rest ih =>
    obtain ⟨cells, self⟩ := ih fun k hk => there k (List.mem_cons_of_mem c hk)
    obtain ⟨d, hd⟩ : ∃ d, ∀ k, c = some k → s.cell? k = some d ∧ d.handle? = none := by
      cases c with
      | none => exact ⟨default, nofun⟩
      | some k =>
        obtain ⟨d, hd⟩ := there k List.mem_cons_self
        exact ⟨d, fun j hj => Option.some.inj hj ▸ hd⟩
    obtain ⟨own, same⟩ := hostValue_ref hd head
    exact ⟨by rw [List.map_cons, own, cells]; rfl, List.forall_mem_cons.mpr ⟨same, self⟩⟩

/-- All cells can be read, or there is a first one that cannot. -/
theorem read_cases (s : Session) (cs : List (Option CellId)) :
    (∀ c ∈ cs, ∃ v, s.hostValue c = .ok v)
    ∨ ∃ before c after f, cs = before ++ c :: after ∧ (∀ d ∈ before, ∃ v, s.hostValue d = .ok v)
      ∧ s.hostValue c = .error f := by
  induction cs with
  | nil => exact .inl nofun
  | cons c cs ih =>
    cases hc : s.hostValue c with
    | error f => exact .inr ⟨[], c, cs, f, rfl, nofun, hc⟩
    | ok v =>
      obtain all | ⟨before, d, after, f, rfl, read, fails⟩ := ih
      · exact .inl (List.forall_mem_cons.mpr ⟨⟨v, hc⟩, all⟩)
      · exact .inr ⟨c :: before, d, after, f, rfl, List.forall_mem_cons.mpr ⟨⟨v, hc⟩, read⟩, fails⟩

/-- All cells of an array that can be read become values. -/
theorem takeAll_ok (there : ∀ k, some k ∈ cs → ∃ d, s.cell? k = some d ∧ d.handle? = none)
    (apart : Apart cs) (read : ∀ c ∈ cs, ∃ v, s.hostValue c = .ok v) :
    ∃ vs s₁, (takeAll cs).run s = ((.ok vs, cs.map fun _ => none), s₁)
      ∧ List.Forall₂ (fun c v => s.hostValue c = .ok v) cs vs ∧ s.Freed (cs.filter s.copies) s₁
      ∧ vs.map (fun v => v.ref?.map Ref.cell) = s.keptOf cs
      ∧ ((vs.filterMap Value.ref?).map Ref.cell).Nodup
      ∧ ∀ v ∈ vs, ∀ q, v.ref? = some q → q = s.refTo q.cell := by
  obtain ⟨vs, values, run⟩ := @takeFrom_ok s cs 0 [] apart read
  obtain ⟨own, self⟩ := owned_cells there values
  refine ⟨vs, _, run, values, freed_freeAll s (apart.filter _), own, ?_, self⟩
  have cells : (vs.filterMap Value.ref?).map Ref.cell = (s.keptOf cs).reduceOption := by
    rw [← own, List.map_filterMap, List.reduceOption, List.filterMap_map]
    rfl
  have all := (perm_kept s cs).nodup_iff.mpr (apart_iff_nodup.mp apart)
  rw [cells]
  rw [List.reduceOption_append] at all
  exact all.of_append_right

/-- If one cell of an array cannot be read, all go. -/
theorem takeAll_error {after : List (Option CellId)}
    (there : ∀ k, some k ∈ cs → ∃ d, s.cell? k = some d ∧ d.handle? = none)
    (apart : Apart (cs ++ c :: after)) (read : ∀ c ∈ cs, ∃ v, s.hostValue c = .ok v)
    (fails : s.hostValue c = .error f) :
    ∃ s₁ s₂, (takeAll (cs ++ c :: after)).run s
        = ((.error (f.ofItem cs.length), (cs.map fun _ => none) ++ none :: after), s₁)
      ∧ (freeAll ((cs.map fun _ => none) ++ none :: after)).run s₁ = ((), s₂)
      ∧ s.Freed (cs ++ c :: after) s₂ := by
  obtain ⟨vs, values, run⟩ := @takeFrom_error s cs c f 0 [] after apart read fails
  rw [Nat.zero_add] at run
  obtain ⟨own, -⟩ := owned_cells there values
  rw [List.reverse_nil, List.nil_append, own] at run
  obtain ⟨-, k, -, -, rfl, -⟩ := copies_of_error fails
  refine ⟨_, ((freeAll ((cs.map fun _ => none) ++ none :: after)).run
    ((freeAll (cs.filter s.copies ++ some k :: s.keptOf cs)).run s).2).2, run, rfl, ?_⟩
  -- the cells that went, in the order in which they did, are those of the array
  have same : (cs.filter s.copies ++ some k :: s.keptOf cs
      ++ ((cs.map fun _ => none) ++ none :: after)).reduceOption.Perm
        (cs ++ some k :: after).reduceOption := by
    have empty : (cs.map fun _ => (none : Option CellId)).reduceOption = [] := by
      rw [List.map_const', List.reduceOption_replicate_none]
    have kept := perm_kept s cs
    rw [List.reduceOption_append] at kept
    have released : ((cs.filter s.copies).reduceOption ++ k :: (s.keptOf cs).reduceOption).Perm
        (k :: cs.reduceOption) := List.perm_middle.trans (kept.cons k)
    rw [List.reduceOption_append, List.reduceOption_append, List.reduceOption_append,
      List.reduceOption_append, List.reduceOption_cons_of_some, List.reduceOption_cons_of_none,
      List.reduceOption_cons_of_some, empty, List.nil_append]
    exact (released.append_right _).trans List.perm_middle.symm
  rw [← freeAll_append]
  exact (freed_freeAll s (apart_iff_nodup.mpr (same.nodup_iff.mpr
    (apart_iff_nodup.mp apart)))).perm same

/-! ## Arrays that were just collected -/

/-- What a session is after cells were made of values of the runtime: all that is new is in these
cells. -/
structure Gathered (s₀ : Session) (cs : List (Option CellId)) (s : Session) : Prop where
  id : s.id = s₀.id
  isOpen : s.isOpen = s₀.isOpen
  active : s.active = s₀.active
  handles : s.handles = s₀.handles
  pins : s.pins = s₀.pins
  old : ∀ k, some k ∉ cs → s.cell? k = s₀.cell? k
  new : ∀ k, some k ∈ cs → s₀.cell? k = none ∧ ∃ d, s.cell? k = some d ∧ d.handle? = none
  kept : ∀ a, a ∉ s.anchorsOf cs → s.anchors.get? a = s₀.anchors.get? a
  taken : ∀ a, a ∈ s.anchorsOf cs → s₀.anchors.get? a = none
  outstanding : s.ledger.outstanding = s₀.ledger.outstanding + s.weightOf cs
  overdrawn : s.ledger.overdrawn = s₀.ledger.overdrawn

theorem Gathered.nil (s : Session) : s.Gathered [] s where
  id := rfl
  isOpen := rfl
  active := rfl
  handles := rfl
  pins := rfl
  old := fun _ _ => rfl
  new := fun _ h => absurd h List.not_mem_nil
  kept := fun _ _ => rfl
  taken := fun _ h => absurd h List.not_mem_nil
  outstanding := (Int.add_zero _).symm
  overdrawn := rfl

/-- One value more is put into a cell. -/
theorem Gathered.cons {s₀ : Session} (first : s₀.Gathered [c] s) (rest : s.Gathered cs s') :
    s₀.Gathered (c :: cs) s' := by
  -- the first cell was there when the others were made
  have stays : c.bind s'.cell? = c.bind s.cell? := by
    cases c with
    | none => rfl
    | some k =>
      obtain ⟨-, d, hd, -⟩ := first.new k List.mem_cons_self
      refine rest.old k fun there => ?_
      exact Option.some_ne_none d (hd.symm.trans (rest.new k there).1)
  have head : s'.cellsOf [c] = s.cellsOf [c] :=
    cellsOf_congr fun d hd => List.mem_singleton.mp hd ▸ stays
  have cells : s'.cellsOf (c :: cs) = s.cellsOf [c] ++ s'.cellsOf cs := by
    rw [← head, ← cellsOf_append, List.singleton_append]
  have anchors : s'.anchorsOf (c :: cs) = s.anchorsOf [c] ++ s'.anchorsOf cs := by
    rw [anchorsOf, cells, List.filterMap_append, anchorsOf, anchorsOf]
  have weight : s'.weightOf (c :: cs) = s.weightOf [c] + s'.weightOf cs := by
    rw [weightOf, cells, List.map_append, List.sum_append, weightOf, weightOf]
  have apart : ∀ k, some k ∉ c :: cs → some k ∉ [c] ∧ some k ∉ cs := fun k other =>
    ⟨fun here => other (List.mem_singleton.mp here ▸ List.mem_cons_self),
      fun there => other (List.mem_cons_of_mem c there)⟩
  have unused : ∀ k, s.cell? k = none → s₀.cell? k = none := by
    intro k none
    by_cases here : some k ∈ [c]
    · exact (first.new k here).1
    · rw [← first.old k here, none]
  have spare : ∀ a, s.anchors.get? a = none → s₀.anchors.get? a = none := by
    intro a none
    by_cases here : a ∈ s.anchorsOf [c]
    · exact first.taken a here
    · rw [← first.kept a here, none]
  exact {
    id := rest.id.trans first.id
    isOpen := rest.isOpen.trans first.isOpen
    active := rest.active.trans first.active
    handles := rest.handles.trans first.handles
    pins := rest.pins.trans first.pins
    old := fun k other => (rest.old k (apart k other).2).trans (first.old k (apart k other).1)
    new := fun k there => by
      by_cases later : some k ∈ cs
      · obtain ⟨none, d, hd⟩ := rest.new k later
        exact ⟨unused k none, d, hd⟩
      · obtain rfl : some k = c := (List.mem_cons.mp there).resolve_right later
        obtain ⟨none, d, hd, unpinned⟩ := first.new k List.mem_cons_self
        exact ⟨none, d, stays.trans hd, unpinned⟩
    kept := fun a other => by
      rw [anchors, List.mem_append, not_or] at other
      exact (rest.kept a other.2).trans (first.kept a other.1)
    taken := fun a there => by
      rw [anchors] at there
      obtain here | later := List.mem_append.mp there
      · exact first.taken a here
      · exact spare a (rest.taken a later)
    outstanding := by
      rw [rest.outstanding, first.outstanding, weight]
      omega
    overdrawn := rest.overdrawn.trans first.overdrawn }

/-- A value is put into the next cell, if into any. -/
theorem gathered_toCell (hs : s.Orderly) (x : Script.Value) :
    s.Gathered [((toCell x).run s).1] ((toCell x).run s).2
      ∧ ((toCell x).run s).2.Orderly := by
  have copied : ∀ d : Cell, d.anchor? = none → d.handle? = none →
      s.Gathered [some s.nextCell] (s.stored d) ∧ (s.stored d).Orderly := by
    intro d unanchored unpinned
    have one : (s.stored d).cellsOf [some s.nextCell] = [d] := by
      rw [cellsOf, List.filterMap_cons, Option.bind_some, cell?_stored_self]
      rfl
    have none : (s.stored d).anchorsOf [some s.nextCell] = [] := by
      rw [anchorsOf, one, List.filterMap_cons, unanchored]
      rfl
    refine ⟨{ Gathered.nil s with
      old := fun k other => cell?_stored_of_ne fun here => other (here ▸ List.mem_cons_self)
      new := fun k here => by
        obtain rfl := Option.some.inj (List.mem_singleton.mp here)
        exact ⟨hs.next_unused, d, cell?_stored_self d, unpinned⟩
      kept := fun _ _ => rfl
      taken := fun a there => by rw [none] at there; cases there
      outstanding := by
        rw [weightOf, one, List.map_cons, List.map_nil, List.sum_singleton]
        rfl
      overdrawn := rfl }, (hs.store d).1⟩
  obtain solid | rfl | ⟨i, rfl⟩ | ⟨y, rfl⟩ | ⟨b, rfl⟩ | ⟨t, rfl⟩ := solid_cases x
  · rw [toCell_run solid]
    obtain ⟨orderly, -⟩ := hs.anchor x
    set s₁ : Session := { s with anchors := (s.anchors.take x).2 }
    set d := s.cellOf x s.anchors.next
    have anchored : d.anchor? = some s.anchors.next := anchor?_cellOf x _
    have unpinned : d.handle? = none := by
      change (s.cellOf x s.anchors.next).handle? = none
      rw [cellOf]
      split <;> rfl
    have light : d.weight = 1 := by
      change (s.cellOf x s.anchors.next).weight = 1
      rw [cellOf]
      split <;> rfl
    have one : (s₁.stored d).cellsOf [some s.nextCell] = [d] := by
      have there : (s₁.stored d).cell? s.nextCell = some d := cell?_stored_self d
      rw [cellsOf, List.filterMap_cons, Option.bind_some, there]
      rfl
    have own : (s₁.stored d).anchorsOf [some s.nextCell] = [s.anchors.next] := by
      rw [anchorsOf, one, List.filterMap_cons, anchored]
      rfl
    refine ⟨{ Gathered.nil s with
      old := fun k other => @cell?_stored_of_ne s₁ d k fun here =>
        other (here ▸ List.mem_cons_self)
      new := fun k here => by
        obtain rfl := Option.some.inj (List.mem_singleton.mp here)
        exact ⟨hs.next_unused, d, @cell?_stored_self s₁ d, unpinned⟩
      kept := fun a other => by
        rw [own, List.mem_singleton] at other
        change (s.anchors.take x).2.get? a = _
        rw [Anchors.get?_take, if_neg other]
      taken := fun a here => by
        rw [own, List.mem_singleton] at here
        subst here
        exact hs.conserved.next_free
      outstanding := by
        rw [weightOf, one, List.map_cons, List.map_nil, List.sum_singleton]
        rfl
      overdrawn := rfl }, (orderly.store d).1⟩
  · exact ⟨{ Gathered.nil s with
      old := fun _ _ => rfl
      new := fun k here => absurd (List.mem_singleton.mp here) (Option.some_ne_none k)
      kept := fun _ _ => rfl
      taken := fun _ here => absurd here List.not_mem_nil
      outstanding := (Int.add_zero _).symm }, hs⟩
  · exact copied (.number (Script.intToFloat i)) rfl rfl
  · exact copied (.number y) rfl rfl
  · exact copied (.boolean b) rfl rfl
  · exact copied (.string t) rfl rfl

/-- Values of the runtime are put into cells. -/
theorem gathered_toCells (hs : s.Orderly) (xs : List Script.Value) :
    s.Gathered ((xs.mapM toCell).run s).1 ((xs.mapM toCell).run s).2 := by
  induction xs generalizing s with
  | nil => exact .nil s
  | cons x xs ih =>
    obtain ⟨first, orderly⟩ := gathered_toCell hs x
    have run : ((x :: xs).mapM toCell).run s
        = (((toCell x).run s).1 :: ((xs.mapM toCell).run ((toCell x).run s).2).1,
          ((xs.mapM toCell).run ((toCell x).run s).2).2) := by
      rw [List.mapM_cons, stateM_run_bind, stateM_run_bind]
      rfl
    rw [run]
    exact first.cons (ih orderly)

theorem gathered_collect {s₀ : Session} (hs : s₀.Orderly) (t : Script.ThreadId) (base : Nat) :
    s₀.Gathered ((collect t base).run s₀).1 ((collect t base).run s₀).2 := by
  have taken : (collect t base).run s₀ = ((s₀.machine.takeOperands t base).1.mapM toCell).run
      { s₀ with machine := (s₀.machine.takeOperands t base).2 } := rfl
  rw [taken]
  have all := @gathered_toCells { s₀ with machine := (s₀.machine.takeOperands t base).2 }
    { hs with } (s₀.machine.takeOperands t base).1
  exact { all with }

/-- When all cells that were made are released, nothing is left of them. -/
theorem Gathered.undone {s₀ : Session} (h : s₀.Gathered cs s) (awake : s₀.active.isSome)
    (h' : s.Freed cs s') :
    (∀ k, s'.cell? k = s₀.cell? k) ∧ (∀ a, s'.anchors.get? a = s₀.anchors.get? a)
      ∧ (∀ p, s'.pins.get? p = s₀.pins.get? p)
      ∧ s'.ledger.outstanding = s₀.ledger.outstanding := by
  refine ⟨fun k => ?_, fun a => ?_, fun p => ?_, ?_⟩
  · rw [h'.cells]
    split
    · rename_i here
      exact (h.new k here).1.symm
    · rename_i other
      exact h.old k other
  · rw [h'.anchors, h.active]
    split
    · rename_i here
      exact (h.taken a here.2).symm
    · rename_i other
      exact h.kept a fun here => other ⟨awake, here⟩
  · have none : s.handlesOf cs = [] := by
      rw [handlesOf, List.filterMap_eq_nil_iff]
      intro d hd
      obtain ⟨c, hc, there⟩ := List.mem_filterMap.mp hd
      cases c with
      | none => cases there
      | some k =>
        obtain ⟨-, e, he, unpinned⟩ := h.new k hc
        obtain rfl := Option.some.inj (he.symm.trans there)
        exact unpinned
    rw [h'.pins, none, if_neg List.not_mem_nil, h.pins]
  · have before := h.outstanding
    have after := h'.outstanding
    omega

/-! ## All or nothing -/

/-- An array of cells becomes host values, or none of it does.  If all can be read, there is a value
for each slot, in order; no slot has a cell any more; the cells whose values were copied have been
released, each of them once, and each of the others is owned by one reference, that of its slot.  If
a string is no text, the first such string is named; and once the array has gone, each of its cells
has been released once, with its anchor.  Then all is as it was before the cells were made. -/
theorem unpackAll_all (there : ∀ k, some k ∈ cs → ∃ d, s.cell? k = some d ∧ d.handle? = none)
    (apart : Apart cs) :
    ∃ r slots s₁ s₂, (takeAll cs).run s = ((r, slots), s₁)
      ∧ (freeAll slots).run s₁ = ((), s₂) ∧ (unpackAll cs).run.run s = (r, s₂)
      ∧ ((∃ vs, r = .ok vs ∧ slots = (cs.map fun _ => none) ∧ s₂ = s₁
          ∧ List.Forall₂ (fun c v => s.hostValue c = .ok v) cs vs
          ∧ s.Freed (cs.filter s.copies) s₁
          ∧ vs.map (fun v => v.ref?.map Ref.cell) = s.keptOf cs
          ∧ ((vs.filterMap Value.ref?).map Ref.cell).Nodup
          ∧ ∀ v ∈ vs, ∀ q, v.ref? = some q → q = s.refTo q.cell)
        ∨ ∃ before k bytes fault after, cs = before ++ some k :: after
          ∧ (∀ c ∈ before, ∃ v, s.hostValue c = .ok v)
          ∧ s.cell? k = some (.string bytes) ∧ Utf8.decode bytes = .error fault
          ∧ r = .error ((Failure.unsupportedType (.notText fault)).ofItem before.length)
          ∧ slots = (before.map fun _ => none) ++ none :: after ∧ s.Freed cs s₂
          ∧ ∀ (s₀ : Session) (t : Script.ThreadId) (base : Nat), s₀.Orderly →
            s₀.active.isSome → (collect t base).run s₀ = (cs, s) →
            (∀ k, s₂.cell? k = s₀.cell? k) ∧ (∀ a, s₂.anchors.get? a = s₀.anchors.get? a)
            ∧ (∀ p, s₂.pins.get? p = s₀.pins.get? p)
            ∧ s₂.ledger.outstanding = s₀.ledger.outstanding) := by
  have joined := unpackFrom_eq 0 [] cs s
  obtain read | ⟨before, c, after, f, rfl, read, fails⟩ := read_cases s cs
  · obtain ⟨vs, s₁, run, values, freed, own, once, self⟩ := takeAll_ok there apart read
    rw [← takeAll, run, freeAll_empty] at joined
    exact ⟨_, _, s₁, s₁, run, freeAll_empty cs s₁, joined,
      .inl ⟨vs, rfl, rfl, rfl, values, freed, own, once, self⟩⟩
  · obtain ⟨s₁, s₂, run, rest, freed⟩ :=
      takeAll_error (fun k hk => there k (List.mem_append_left _ hk)) apart read fails
    obtain ⟨-, k, bytes, fault, rfl, hk, invalid, rfl⟩ := copies_of_error fails
    rw [← takeAll, run, rest] at joined
    refine ⟨_, _, s₁, s₂, run, rest, joined, .inr ⟨before, k, bytes, fault, after, rfl, read, hk,
      invalid, rfl, rfl, freed, fun s₀ t base orderly awake collected => ?_⟩⟩
    have gathered := gathered_collect orderly t base
    rw [collected] at gathered
    exact gathered.undone awake freed

/-- Two tables and two strings, of which one is no text, in the cells of a new session. -/
def laden : Session :=
  (([.table 0, .str "a".toUTF8, .str ⟨#[255]⟩, .table 1].mapM toCell).run
    (start 1 .standard)).2

/-- Whether each slot is empty or has a cell without a pin. -/
def unpinned (s : Session) (cs : List (Option CellId)) : Bool :=
  cs.all fun c => c.all fun k => (s.cell? k).any fun d => d.handle?.isNone

/-- Whether cells are refused for one of them, and for which. -/
def refusedAt (s : Session) (cs : List (Option CellId)) : Option Nat :=
  match ((unpackAll cs).run.run s).1 with
  | .error (.marshalFailure i _) => some i
  | _ => none

theorem unpackAll_all_laden :
    (∀ k, some k ∈ [some 0, none, some 1, some 2, some 3] →
      ∃ d, laden.cell? k = some d ∧ d.handle? = none)
    ∧ Apart [some 0, none, some 1, some 2, some 3]
    ∧ ∃ fault s₂, (unpackAll [some 0, none, some 1, some 2, some 3]).run.run laden
        = (.error ((Failure.unsupportedType (.notText fault)).ofItem 3), s₂)
      ∧ laden.Freed [some 0, none, some 1, some 2, some 3] s₂ := by
  have present : laden.unpinned [some 0, none, some 1, some 2, some 3] = true := by
    decide +kernel
  have refused : laden.refusedAt [some 0, none, some 1, some 2, some 3] = some 3 := by
    decide +kernel
  have apart : Apart [some 0, none, some 1, some 2, some 3] := apart_iff_nodup.mpr (by decide)
  -- unfolded, the session would be computed at each step
  revert present refused apart
  generalize [some 0, none, some 1, some 2, some 3] = slots
  generalize laden = s
  intro present refused apart
  have there : ∀ k, some k ∈ slots → ∃ d, s.cell? k = some d ∧ d.handle? = none := by
    intro k hk
    obtain ⟨d, hd, unpinned⟩ := (Option.any_eq_true _ _).mp (List.all_eq_true.mp present _ hk)
    exact ⟨d, hd, Option.isNone_iff_eq_none.mp unpinned⟩
  refine ⟨there, apart, ?_⟩
  obtain ⟨r, left, s₁, s₂, -, -, run, ⟨vs, rfl, -⟩ |
    ⟨before, k, bytes, fault, after, -, -, -, -, rfl, -, freed, -⟩⟩ := unpackAll_all there apart
  · rw [refusedAt, run] at refused
    cases refused
  · rw [refusedAt, run] at refused
    have position : before.length = 3 := Option.some.inj refused
    rw [position] at run
    exact ⟨fault, s₂, run, freed⟩

end ScriptBridge.Session

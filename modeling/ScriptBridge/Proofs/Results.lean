import ScriptBridge.Proofs.Disposal

/-!
# ScriptBridge.Proofs.Results

What a list of script values comes to that the host takes from its frame: all of them are read, in
order, or none is, for the first string that is no text.

Main facts:

* `Session.unpackAll_yields` — what the values come to;
* `Session.fewer_unpackAll` — no cell is made, and no pin.
-/

namespace ScriptBridge.Session

variable {s s' s₀ : Session}

/-- What a list of script values comes to for the host. -/
inductive Yields (s : Session) (xs : List Script.Value) : Except Failure (List Value) → Prop
  | values {us : List Value} : List.Forall₂ s.Reads xs us → Yields s xs (.ok us)
  | noText {ys zs : List Script.Value} {b : Script.Bytes} {fault : Utf8.Fault} :
      xs = ys ++ .str b :: zs → (∀ t, .str t ∈ ys → ∃ text, Utf8.decode t = .ok text) →
      Utf8.decode b = .error fault →
      Yields s xs (.error ((Failure.unsupportedType (.notText fault)).ofItem ys.length))

/-- All strings of a list are texts, or there is a first one that is none. -/
theorem texts_cases (xs : List Script.Value) :
    (∀ t, .str t ∈ xs → ∃ text, Utf8.decode t = .ok text)
    ∨ ∃ ys zs b fault, xs = ys ++ Script.Value.str b :: zs
      ∧ (∀ t, .str t ∈ ys → ∃ text, Utf8.decode t = .ok text) ∧ Utf8.decode b = .error fault := by
  induction xs with
  | nil => exact .inl nofun
  | cons x xs ih =>
    by_cases bad : ∃ b fault, x = .str b ∧ Utf8.decode b = .error fault
    · obtain ⟨b, fault, rfl, invalid⟩ := bad
      exact .inr ⟨[], xs, b, fault, rfl, nofun, invalid⟩
    · have good : ∀ t, x = .str t → ∃ text, Utf8.decode t = .ok text := by
        rintro t rfl
        cases read : Utf8.decode t with
        | ok text => exact ⟨text, rfl⟩
        | error fault => exact absurd ⟨t, fault, rfl, read⟩ bad
      have first : ∀ {ys : List Script.Value},
          (∀ t, .str t ∈ ys → ∃ text, Utf8.decode t = .ok text) →
          ∀ t, .str t ∈ x :: ys → ∃ text, Utf8.decode t = .ok text := by
        intro ys all t ht
        obtain here | there := List.mem_cons.mp ht
        · exact good t here.symm
        · exact all t there
      obtain all | ⟨ys, zs, b, fault, rfl, valid, invalid⟩ := ih
      · exact .inl (first all)
      · exact .inr ⟨x :: ys, zs, b, fault, rfl, first valid, invalid⟩

/-- A batch fails at the first string that is no text. -/
theorem unpackFrom_fails (hs : s.Orderly) {ys zs : List Script.Value} {b : Script.Bytes}
    {fault : Utf8.Fault} {cs : List (Option CellId)} {index : Nat} {done : List Value}
    (h : List.Forall₂ s.InCell (ys ++ .str b :: zs) cs) (apart : Apart cs)
    (valid : ∀ t, .str t ∈ ys → ∃ text, Utf8.decode t = .ok text)
    (invalid : Utf8.decode b = .error fault) :
    ∃ s', (unpackFrom index done cs).run.run s
      = (.error ((Failure.unsupportedType (.notText fault)).ofItem (index + ys.length)), s') := by
  induction ys generalizing s cs index done with
  | nil =>
    obtain ⟨c, cs, ⟨k, rfl, hk⟩, -, rfl⟩ := List.forall₂_cons_left_iff.mp h
    have failed : (unpack (some k)).run.run s
        = (.error (.unsupportedType (.notText fault)), s.freed k (.string b)) := by
      rw [unpack, try_get_bind, hk, try_lift_bind, free_run hk, invalid]
      rfl
    exact ⟨_, try_bind_error (by
      rw [ExceptT.run_tryCatch, stateM_run_bind, failed]
      rfl)⟩
  | cons y ys ih =>
    obtain ⟨c, cs, head, rest, rfl⟩ := List.forall₂_cons_left_iff.mp h
    obtain ⟨u, s₁, run, orderly, -, -, -, still⟩ :=
      unpack_next hs head (fun t ht => valid t (ht ▸ List.mem_cons_self)) rest apart
    obtain ⟨s', run'⟩ := @ih s₁ orderly cs (index + 1) (u :: done) still
      (List.pairwise_cons.mp apart).2 fun t ht => valid t (List.mem_cons_of_mem y ht)
    refine ⟨s', ?_⟩
    rw [unpackFrom, try_bind_ok (try_tryCatch_ok run), run', List.length_cons, Nat.add_assoc,
      Nat.add_comm 1]

/-- What values come to that are in cells of their own. -/
theorem unpackAll_yields (hs : s.Orderly) {xs : List Script.Value} {cs : List (Option CellId)}
    (h : List.Forall₂ s.InCell xs cs) (apart : Apart cs) :
    ∃ r s', (unpackAll cs).run.run s = (r, s') ∧ s'.Yields xs r
      ∧ (∀ us, r = .ok us → s'.Orderly ∧ Retains 0 s s' ∧ s'.machine = s.machine) := by
  obtain valid | ⟨ys, zs, b, fault, rfl, valid, invalid⟩ := texts_cases xs
  · obtain ⟨us, s', run, orderly, retains, machine, reads⟩ := unpackAll_reads hs h apart valid
    exact ⟨_, s', run, .values reads, fun _ _ => ⟨orderly, retains, machine⟩⟩
  · obtain ⟨s', run⟩ := @unpackFrom_fails s hs ys zs b fault cs 0 [] h apart valid invalid
    rw [Nat.zero_add] at run
    exact ⟨_, s', run, .noText rfl valid invalid, nofun⟩

/-! ## No cell is made -/

theorem fewer_settle (weight : Nat) : Preserves s₀.Fewer (settle weight) :=
  fun _ h => ⟨h.isOpen, h.cells, h.pins⟩

theorem fewer_freed (k : CellId) : Preserves s₀.Fewer (free k) :=
  fun s h => h.trans (fewer_free s k).1

theorem fewer_freeAll (cs : List (Option CellId)) : Preserves s₀.Fewer (freeAll cs) := by
  induction cs with
  | nil => exact .pure _
  | cons c cs ih =>
    cases c with
    | none => exact ih
    | some k => exact (fewer_freed k).bind fun _ => ih

theorem fewer_forget (vs : List Value) : Preserves s₀.Fewer (forget vs) := by
  induction vs with
  | nil => exact .pure _
  | cons v vs ih =>
    rw [forget]
    cases v.ref? with
    | none => exact ih
    | some r => exact (fewer_freed r.cell).bind fun _ => ih

theorem fewer_unpack (c : Option CellId) : Preserves s₀.Fewer (unpack c).run := by
  cases c with
  | none => exact .tryPure _
  | some k =>
    refine .tryGet fun s h => ?_
    cases s.cell? k with
    | none => exact h
    | some c =>
      cases c with
      | number | boolean => exact fewer_freed k s h
      | string b =>
        refine Preserves.tryBind (fewer_freed k).lift (fun _ => ?_) s h
        cases Utf8.decode b <;> exact fun _ h => h
      | function a native => cases native <;> exact h
      | object | pinned => exact h

theorem fewer_unpackAll (cs : List (Option CellId)) : Preserves s₀.Fewer (unpackAll cs).run := by
  have all : ∀ index done, Preserves s₀.Fewer (unpackFrom index done cs).run := by
    induction cs with
    | nil => exact fun _ _ => .tryPure _
    | cons c cs ih =>
      intro index done
      rw [unpackFrom]
      refine .tryBind (.tryCatch (fewer_unpack c) fun _ => ?_) fun _ => ih _ _
      exact .tryBind (fewer_forget _).lift fun _ => .tryBind (fewer_freeAll cs).lift fun _ => .throw _
  exact all 0 []

end ScriptBridge.Session

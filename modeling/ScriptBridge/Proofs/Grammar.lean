import ScriptBridge.Proofs.Climbing

/-!
# ScriptBridge.Proofs.Grammar

The grammar of dotted paths.  Segments spell the text that has them in order, with dots between
them: `Path.Spells`.  A text is a path if, and only if, there are segments that spell it, and then
there are no others.

Main facts:

* `Path.spells_iff` — the pieces between the dots are the only segments that can spell a text;
* `Path.stem_before_dot` — so many segments of a path end before as many dots;
* `Path.climb_error` — where a walk fails, and which segments the fault names;
* `Path.grammar` — which texts are paths, and what part of its path a failing walk names.
-/

namespace ScriptBridge

namespace Path

variable {segments : List String} {text : String}

/-- Whether a text is a list of segments with dots between them. -/
def Spells (segments : List String) (text : String) : Prop :=
  segments ≠ [] ∧ (∀ s ∈ segments, IsSegment s.toList) ∧ ".".intercalate segments = text

/-! ## Joining and splitting -/

theorem join_eq_intercalate (pieces : List (List Char)) : join pieces = ['.'].intercalate pieces := by
  induction pieces with
  | nil => rfl
  | cons piece more ih =>
    cases more with
    | nil => simp [join, List.intercalate]
    | cons next rest => simp [join, ih, List.intercalate]

theorem join_append (before after : List (List Char)) (some : before ≠ []) (more : after ≠ []) :
    join (before ++ after) = join before ++ '.' :: join after := by
  induction before with
  | nil => exact absurd rfl some
  | cons piece rest ih =>
    cases rest with
    | nil =>
      cases after with
      | nil => exact absurd rfl more
      | cons => simp [join]
    | cons next rest => simpa [join] using ih (List.cons_ne_nil next rest)

/-- There is a dot between any two segments, and nowhere else. -/
theorem count_dot_join {pieces : List (List Char)} (plain : ∀ p ∈ pieces, '.' ∉ p) :
    (join pieces).count '.' = pieces.length - 1 := by
  induction pieces with
  | nil => rfl
  | cons piece more ih =>
    have none : piece.count '.' = 0 := List.count_eq_zero.mpr (plain piece (by simp))
    cases more with
    | nil => simpa [join] using none
    | cons next rest =>
      have between := ih fun p hp => plain p (by simp [hp])
      simp [join, none, between]

theorem toList_stem (segments : List String) :
    (stem segments).toList = join (segments.map String.toList) := by
  simp [stem]

theorem stem_eq_intercalate (segments : List String) : stem segments = ".".intercalate segments := by
  rw [← String.toList_inj, toList_stem, String.toList_intercalate, join_eq_intercalate]
  rfl

/-! ## Which texts are paths -/

/-- Only the pieces of a text between its dots can spell it. -/
theorem spells_iff : Spells segments text
    ↔ segments.map String.toList = split text.toList ∧ [] ∉ split text.toList := by
  rw [Spells, ← stem_eq_intercalate]
  constructor
  · rintro ⟨some, segment, rfl⟩
    have pieces : split (stem segments).toList = segments.map String.toList := by
      rw [toList_stem, split_join (by simpa using some)]
      rintro p hp
      obtain ⟨s, hs, rfl⟩ := List.mem_map.mp hp
      exact (segment s hs).2
    refine ⟨pieces.symm, fun empty => ?_⟩
    rw [pieces] at empty
    obtain ⟨s, hs, none⟩ := List.mem_map.mp empty
    exact (segment s hs).1 none
  · rintro ⟨pieces, full⟩
    refine ⟨?_, fun s hs => ?_, ?_⟩
    · rintro rfl
      exact split_ne_nil _ pieces.symm
    · have piece : s.toList ∈ split text.toList := pieces ▸ List.mem_map_of_mem hs
      exact ⟨fun none => full (none ▸ piece), no_dot_of_mem_split piece⟩
    · rw [stem, pieces, join_split, String.ofList_toList]

theorem spells_split (full : [] ∉ split text.toList) :
    Spells ((split text.toList).map String.ofList) text :=
  spells_iff.mpr ⟨by simp [Function.comp_def], full⟩

/-- The segments that spell a text are told by it. -/
theorem Spells.unique {others : List String} (h : Spells segments text) (h' : Spells others text) :
    segments = others := by
  have same := (spells_iff.mp h).1.trans (spells_iff.mp h').1.symm
  exact List.map_injective_iff.mpr (fun _ _ => String.toList_inj.mp) same

theorem parse_of_spells (h : Spells segments text) :
    parse text = .ok ⟨segments.dropLast, segments.getLast h.1, text⟩ := by
  have full := (spells_iff.mp h).2
  have pieces : (split text.toList).map String.ofList = segments :=
    (spells_split full).unique h
  have none : ¬ (split text.toList).any List.isEmpty = true := by
    simpa [List.any_eq_true] using full
  rw [parse, if_neg none, pieces, ofSegments_of_ne_nil text h.1]

theorem parse_of_empty (empty : [] ∈ split text.toList) :
    parse text = .error (.invalidPath (.malformed text)) := by
  rw [parse, if_pos (List.any_eq_true.mpr ⟨[], empty, rfl⟩)]

/-- A text is read as a path if, and only if, segments spell it. -/
theorem parse_eq_ok_iff {p : Path} : parse text = .ok p
    ↔ ∃ segments, Spells segments text ∧ segments.dropLast = p.parents
      ∧ segments.getLast? = some p.last ∧ p.text = text := by
  constructor
  · intro parsed
    by_cases empty : [] ∈ split text.toList
    · cases (parse_of_empty empty).symm.trans parsed
    · have spelled := spells_split empty
      cases (parse_of_spells spelled).symm.trans parsed
      exact ⟨_, spelled, rfl, List.getLast?_eq_some_getLast spelled.1, rfl⟩
  · rintro ⟨segments, spelled, parents, last, rfl⟩
    rw [parse_of_spells spelled, parents]
    rw [List.getLast?_eq_some_getLast spelled.1, Option.some.injEq] at last
    rw [last]

theorem Spells.of_parse {p : Path} (parsed : parse text = .ok p) : Spells p.segments text := by
  obtain ⟨segments, spelled, parents, last, -⟩ := parse_eq_ok_iff.mp parsed
  have all : p.segments = segments := by
    rw [Path.segments, ← parents]
    exact List.dropLast_append_getLast? _ last
  exact all ▸ spelled

/-! ## Where walks fail -/

/-- So many segments of a path, but not all of them, end before as many dots. -/
theorem stem_before_dot (h : Spells segments text) (depth : Nat) (proper : depth + 1 < segments.length) :
    ∃ after, text = stem (segments.take (depth + 1)) ++ "." ++ after
      ∧ (stem (segments.take (depth + 1))).toList.count '.' = depth := by
  have plain : ∀ p ∈ (segments.take (depth + 1)).map String.toList, '.' ∉ p := by
    intro p hp
    obtain ⟨s, hs, rfl⟩ := List.mem_map.mp hp
    exact (h.2.1 s (List.mem_of_mem_take hs)).2
  refine ⟨stem (segments.drop (depth + 1)), ?_, ?_⟩
  · have whole : text = stem segments := by rw [stem_eq_intercalate, h.2.2]
    have parts := join_append ((segments.take (depth + 1)).map String.toList)
      ((segments.drop (depth + 1)).map String.toList)
      (by simpa using fun e => h.1 e) (by simpa using proper)
    rw [← List.map_append, List.take_append_drop] at parts
    rw [whole, ← String.toList_inj]
    simpa [toList_stem] using parts
  · rw [toList_stem, count_dot_join plain]
    simp
    omega

/-- Whether a walk through segments fails at a depth: those before lead it on, and the next one does
not. -/
def FailsAt (p : Path) (create : Bool) (t : Script.ThreadId) (done remaining : List String)
    (m : Script.Machine) (depth : Nat) (fault : PathFault) : Prop :=
  depth < remaining.length ∧ (p.climb create t done (remaining.take depth) m).1 = .ok ()
    ∧ (p.climb create t done (remaining.take (depth + 1)) m).1 = .error fault

/-- A walk that fails does so at some depth, and its fault names the segments up to there. -/
theorem climb_error {p : Path} {create : Bool} {t : Script.ThreadId} {fault : PathFault}
    (done remaining : List String) (m : Script.Machine)
    (failed : (p.climb create t done remaining m).1 = .error fault) :
    ∃ depth, p.FailsAt create t done remaining m depth fault
      ∧ (fault = .undefined p.text (stem (done ++ remaining.take (depth + 1)))
        ∨ fault = .notTable p.text (stem (done ++ remaining.take (depth + 1)))) := by
  induction remaining generalizing done m with
  | nil => cases failed
  | cons segment rest ih =>
    have later : ∀ m', (∀ rest, p.climb create t done (segment :: rest) m
          = p.climb create t (done ++ [segment]) rest m') →
        ∃ depth, p.FailsAt create t done (segment :: rest) m depth fault
          ∧ (fault = .undefined p.text (stem (done ++ (segment :: rest).take (depth + 1)))
            ∨ fault = .notTable p.text (stem (done ++ (segment :: rest).take (depth + 1)))) := by
      intro m' on
      obtain ⟨depth, ⟨inside, led, stopped⟩, named⟩ := ih (done ++ [segment]) m' (on rest ▸ failed)
      refine ⟨depth + 1, ⟨by simpa using inside, ?_, ?_⟩, by simpa using named⟩
      · rw [List.take_succ_cons, on, led]
      · rw [List.take_succ_cons, on, stopped]
    have now : ∀ other : PathFault,
        (∀ rest, (p.climb create t done (segment :: rest) m).1 = .error other) →
        (other = .undefined p.text (stem (done ++ [segment]))
          ∨ other = .notTable p.text (stem (done ++ [segment]))) →
        ∃ depth, p.FailsAt create t done (segment :: rest) m depth fault
          ∧ (fault = .undefined p.text (stem (done ++ (segment :: rest).take (depth + 1)))
            ∨ fault = .notTable p.text (stem (done ++ (segment :: rest).take (depth + 1)))) := by
      intro other stops named
      obtain rfl : other = fault := Except.error.inj ((stops rest).symm.trans failed)
      exact ⟨0, ⟨by simp, rfl, stops _⟩, named⟩
    -- what the segment leads to decides how the walk goes on
    generalize looked : (m.pushOperand t (.str segment.toUTF8)).getField t = m'
    by_cases missing : ∃ more, m'.operandsOf t = .nil :: more
    · obtain ⟨more, found⟩ := missing
      cases create with
      | true => exact later _ fun rest => by rw [climb]; simp only [looked, found, if_true]; rfl
      | false => exact now _ (fun rest => by rw [climb]; simp only [looked, found]; rfl) (.inl rfl)
    · have on : ∀ rest, p.climb create t done (segment :: rest) m
          = if ((m'.operandsOf t).head?.bind m'.tableOf?).isSome then
              p.climb create t (done ++ [segment]) rest (m'.dropBelow t)
            else (.error (.notTable p.text (stem (done ++ [segment]))), m') := by
        intro rest
        rw [climb]
        simp only [looked]
        split
        · rename_i found
          exact absurd ⟨_, found⟩ missing
        · rfl
      by_cases table : ((m'.operandsOf t).head?.bind m'.tableOf?).isSome
      · exact later _ fun rest => by rw [on, if_pos table]
      · exact now _ (fun rest => by rw [on, if_neg table]) (.inr rfl)

/-- The part of its path that a failing walk names ends before the dot that its depth tells. -/
theorem walk_names {p : Path} (parsed : parse text = .ok p) {s : Session} {t : Script.ThreadId}
    {base : Nat} {create : Bool} {f : Failure}
    (failed : ((Session.walk t base p create).run.run s).1 = .error f) :
    ∃ depth fault before after, f = .invalidPath fault
      ∧ p.FailsAt create t [] p.parents (s.machine.pushOperand t (.table s.machine.globals)) depth fault
      ∧ (fault = .undefined text before ∨ fault = .notTable text before)
      ∧ text = before ++ "." ++ after ∧ before.toList.count '.' = depth := by
  obtain ⟨r, m, climbed⟩ : ∃ r m, p.climb create t [] p.parents
      (s.machine.pushOperand t (.table s.machine.globals)) = (r, m) := ⟨_, _, rfl⟩
  rw [Session.walk_of_climb climbed] at failed
  cases r with
  | ok => cases failed
  | error fault =>
    obtain ⟨depth, fails, named⟩ := climb_error [] p.parents _ (congrArg Prod.fst climbed)
    have spelled := Spells.of_parse parsed
    obtain ⟨-, -, -, -, same⟩ := parse_eq_ok_iff.mp parsed
    have taken : p.segments.take (depth + 1) = p.parents.take (depth + 1) :=
      List.take_append_of_le_length fails.1
    obtain ⟨after, cut, count⟩ := stem_before_dot spelled depth
      (by simpa [Path.segments] using fails.1)
    rw [taken] at cut count
    rw [same] at named
    exact ⟨depth, fault, _, after, (Except.error.inj failed).symm, fails, named, cut, count⟩

/-- Which texts are paths, and what part of its path a failing walk names.  A text is a path if segments
spell it, which are then its segments, and no other text has the same ones; any other text is refused.
A walk that fails at some depth names the part of the text that ends before the dot with as many dots
before it. -/
theorem grammar (text : String) :
    (∀ segments, Spells segments text ↔ ∃ p, parse text = .ok p ∧ segments.dropLast = p.parents
      ∧ segments.getLast? = some p.last)
    ∧ ((∀ segments, ¬ Spells segments text) ↔ parse text = .error (.invalidPath (.malformed text)))
    ∧ ∀ p, parse text = .ok p →
      (∀ other q, parse other = .ok q → q.segments = p.segments → other = text)
      ∧ ∀ (s : Session) (t : Script.ThreadId) (base : Nat) (create : Bool) (f : Failure),
        ((Session.walk t base p create).run.run s).1 = .error f →
        ∃ depth fault before after, f = .invalidPath fault
          ∧ p.FailsAt create t [] p.parents (s.machine.pushOperand t (.table s.machine.globals))
            depth fault
          ∧ (fault = .undefined text before ∨ fault = .notTable text before)
          ∧ text = before ++ "." ++ after ∧ before.toList.count '.' = depth := by
  refine ⟨fun segments => ⟨fun spelled => ?_, ?_⟩, ?_, fun p parsed =>
    ⟨fun other q read same => ?_, fun s t base create f failed => walk_names parsed failed⟩⟩
  · exact ⟨_, parse_of_spells spelled, rfl, List.getLast?_eq_some_getLast spelled.1⟩
  · rintro ⟨p, parsed, parents, last⟩
    have all : segments = p.segments := by
      rw [Path.segments, ← parents]
      exact (List.dropLast_append_getLast? _ last).symm
    exact all ▸ Spells.of_parse parsed
  · constructor
    · intro none
      by_cases empty : [] ∈ split text.toList
      · exact parse_of_empty empty
      · exact absurd (spells_split empty) (none _)
    · intro refused segments spelled
      cases (parse_of_spells spelled).symm.trans refused
  · rw [← (Spells.of_parse read).2.2, ← (Spells.of_parse parsed).2.2, same]

/-- A text that is no path, a text that is one, and a walk that fails at its second segment. -/
theorem grammar_walking :
    let s := Session.start 1 .standard
    let failure := Failure.invalidPath (.notTable "math.pi.x" "math.pi")
    (∀ segments, ¬ Spells segments "a..b")
    ∧ (∃ p, parse "math.pi.x" = .ok p ∧ ((Session.walk 0 0 p false).run.run s).1 = .error failure
      ∧ ∃ depth fault before after, failure = .invalidPath fault
        ∧ p.FailsAt false 0 [] p.parents (s.machine.pushOperand 0 (.table s.machine.globals)) depth fault
        ∧ (fault = .undefined "math.pi.x" before ∨ fault = .notTable "math.pi.x" before)
        ∧ "math.pi.x" = before ++ "." ++ after ∧ before.toList.count '.' = depth) := by
  have parsed : parse "math.pi.x" = .ok ⟨["math", "pi"], "x", "math.pi.x"⟩ := by decide +kernel
  have failed : ((Session.walk 0 0 ⟨["math", "pi"], "x", "math.pi.x"⟩ false).run.run
      (Session.start 1 .standard)).1 = .error (.invalidPath (.notTable "math.pi.x" "math.pi")) := by
    decide +kernel
  exact ⟨(grammar "a..b").2.1.mpr (by decide +kernel), _, parsed, failed,
    ((grammar "math.pi.x").2.2 _ parsed).2 _ _ _ _ _ failed⟩

end Path

end ScriptBridge

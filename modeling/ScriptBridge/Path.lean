import ScriptBridge.Failure

/-!
# ScriptBridge.Path

Dotted paths to globals, such as `a.b.c`.  A path is a list of segments, each of them a
non-empty text without a dot; the segments before the last name the tables to walk through.

Main facts:

* `Path.join_split` — the segments of a text, joined by dots, give it back;
* `Path.split_join` — the segments of joined segments are those segments.
-/

namespace ScriptBridge

namespace Path

/-- The pieces of a text between its dots; there is always at least one. -/
def split : List Char → List (List Char)
  | [] => [[]]
  | c :: rest =>
    if c = '.' then [] :: split rest
    else
      match split rest with
      | [] => [[c]]
      | piece :: more => (c :: piece) :: more

/-- Pieces put together with dots between them. -/
def join : List (List Char) → List Char
  | [] => []
  | [piece] => piece
  | piece :: more => piece ++ '.' :: join more

/-- A segment of a path: not empty and without a dot. -/
def IsSegment (s : List Char) : Prop := s ≠ [] ∧ '.' ∉ s

instance (s : List Char) : Decidable (IsSegment s) := inferInstanceAs (Decidable (_ ∧ _))

theorem split_ne_nil : ∀ cs, split cs ≠ []
  | [] => by simp [split]
  | c :: rest => by
    unfold split
    split
    · simp
    · split <;> simp

theorem join_split (cs : List Char) : join (split cs) = cs := by
  induction cs with
  | nil => rfl
  | cons c rest ih =>
    unfold split
    split
    next h =>
      subst h
      cases hs : split rest with
      | nil => exact absurd hs (split_ne_nil rest)
      | cons piece more => rw [hs] at ih; simp [join, ih]
    next =>
      cases hs : split rest with
      | nil => exact absurd hs (split_ne_nil rest)
      | cons piece more =>
        rw [hs] at ih
        cases more with
        | nil => simpa [join] using ih
        | cons next rest => simpa [join] using ih

theorem split_append_dot {piece : List Char} (h : '.' ∉ piece) (rest : List Char) :
    split (piece ++ '.' :: rest) = piece :: split rest := by
  induction piece with
  | nil => simp [split]
  | cons c piece ih =>
    have hc : c ≠ '.' := fun e => h (by simp [e])
    have hp : '.' ∉ piece := fun e => h (by simp [e])
    simp [split, hc, ih hp]

theorem split_of_no_dot {piece : List Char} (h : '.' ∉ piece) : split piece = [piece] := by
  induction piece with
  | nil => rfl
  | cons c piece ih =>
    have hc : c ≠ '.' := fun e => h (by simp [e])
    have hp : '.' ∉ piece := fun e => h (by simp [e])
    simp [split, hc, ih hp]

theorem split_join {pieces : List (List Char)} (hne : pieces ≠ [])
    (h : ∀ p ∈ pieces, '.' ∉ p) : split (join pieces) = pieces := by
  induction pieces with
  | nil => exact absurd rfl hne
  | cons piece more ih =>
    cases more with
    | nil => simpa [join] using split_of_no_dot (h piece (by simp))
    | cons next rest =>
      rw [join, split_append_dot (h piece (by simp)), ih (by simp) fun p hp => h p (by simp [hp])]
      simp

theorem no_dot_of_mem_split {cs p : List Char} (h : p ∈ split cs) : '.' ∉ p := by
  induction cs generalizing p with
  | nil => simp [split] at h; simp [h]
  | cons c rest ih =>
    unfold split at h
    split at h
    next => rcases List.mem_cons.1 h with rfl | h
            · simp
            · exact ih h
    next hc =>
      cases hs : split rest with
      | nil => exact absurd hs (split_ne_nil rest)
      | cons piece more =>
        simp only [hs, List.mem_cons] at h
        rcases h with rfl | h
        · have := ih (p := piece) (by simp [hs])
          simp [this, Ne.symm hc]
        · exact ih (by simp [hs, h])

end Path

/-- A parsed path: the segments to walk through, the last segment, and the text it was read
from. -/
structure Path where
  parents : List String
  last : String
  text : String
  deriving DecidableEq, Repr

namespace Path

/-- All segments, in order. -/
def segments (p : Path) : List String := p.parents ++ [p.last]

/-- The segments `first`, …, `depth` of a path, as text: the part of it that a failing walk
names. -/
def stem (segments : List String) : String :=
  String.ofList (join (segments.map String.toList))

/-- The path of a list of segments, the last of which is set apart; there must be one. -/
def ofSegments (text : String) (segments : List String) : Except Failure Path :=
  match segments.getLast? with
  | some last => .ok ⟨segments.dropLast, last, text⟩
  | none => .error (.invalidPath (.malformed text))

theorem ofSegments_of_ne_nil (text : String) {segments : List String} (h : segments ≠ []) :
    ofSegments text segments = .ok ⟨segments.dropLast, segments.getLast h, text⟩ := by
  rw [ofSegments, List.getLast?_eq_some_getLast h]

/-- Reads a dotted path; a text with an empty segment is refused. -/
def parse (text : String) : Except Failure Path :=
  let pieces := split text.toList
  if pieces.any List.isEmpty then .error (.invalidPath (.malformed text))
  else ofSegments text (pieces.map String.ofList)

end Path

end ScriptBridge

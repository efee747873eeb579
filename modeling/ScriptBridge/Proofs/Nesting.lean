import Mathlib.Logic.Function.Basic
import ScriptBridge.Proofs.Routes
import ScriptBridge.Proofs.Standing

/-!
# ScriptBridge.Proofs.Nesting

How calls between host and scripts nest.  An activity is part of what goes on between the host and
one session, or has nothing to do with it.  The parts of the activities in progress say how the
session stands: `Nested` goes from the outermost one to the innermost, and each of them lies on
the frames that those before it have left.

`callers` are the spines on which the host callables of a session in progress were called, the
innermost first.

Main facts:

* `Nested.thread` — host operations run on the thread on which the innermost host callable in
  progress was called, or on the main thread;
* `World.Nests` — every session stands as the activities say, and at most one of them runs;
* `World.Mid` — the same while the host works on one session.
-/

namespace ScriptBridge.Host

open Script (Spine Wait ThreadId FrameInfo)

/-! ## Activities and sessions -/

/-- What an activity is for a session. -/
inductive Part where
  /-- Nothing. -/
  | apart
  /-- A script of it was called; so many values were on the host's frame before. -/
  | runs (base : Nat)
  /-- A function and the arguments of a call are put on the host's frame of a thread; so many of all
  are missing. -/
  | sends (thread : ThreadId) (base : Nat) (function : Script.Value) (vs : List Value)
      (missing all : Nat)
  /-- The value of a global is put on the host's frame of a thread, or is missing. -/
  | assigns (thread : ThreadId) (base missing : Nat)
  /-- A host callable was called from it. -/
  | serves (previous : Option ThreadId)
  /-- The results of one are put on the host's frame of a thread; so many of all are missing. -/
  | answers (thread : ThreadId) (previous : Option ThreadId) (vs : List Value) (missing all : Nat)
  | sweeps
  | closes

/-- Whether a host callable that was called from the session is in progress. -/
def Part.isCall : Part → Bool
  | .serves _ | .answers .. => true
  | _ => false

def Errand.part (d : Delivery) : Errand → Part
  | .call _ base f c => .sends d.thread base f (c.args.map (·.1)) d.missing d.outbound.length
  | .assign _ base _ => .assigns d.thread base d.missing
  | .results previous vs => .answers d.thread previous vs d.missing d.outbound.length

namespace Activity

/-- The session that an activity is about, and what it is for it. -/
def about? : Activity → Option (SessionId × Part)
  | .step _ (.executing id base) => some (id, .runs base)
  | .step _ (.calling id base ..) => some (id, .runs base)
  | .step _ (.closing id) => some (id, .closes)
  | .delivering d errand => some (d.session, errand.part d)
  | .serving id previous _ => some (id, .serves previous)
  | .sweeping id => some (id, .sweeps)
  | _ => none

/-- What an activity is for a session. -/
def part (id : SessionId) (a : Activity) : Part :=
  match a.about? with
  | some (session, p) => if session = id then p else .apart
  | none => .apart

/-- Whether an activity can only be the outermost one. -/
def isRoot : Activity → Bool
  | .program none _ | .teardown => true
  | _ => false

variable {a : Activity} {id j : SessionId} {p : Part}

theorem part_self (h : a.about? = some (id, p)) : a.part id = p := by rw [part, h]; exact if_pos rfl

theorem part_of_ne (h : a.about? = some (id, p)) (ne : j ≠ id) : a.part j = .apart := by
  rw [part, h]
  exact if_neg (Ne.symm ne)

theorem part_of_none (h : a.about? = none) : a.part id = .apart := by rw [part, h]

theorem about_of_part (h : a.part id ≠ .apart) : a.about? = some (id, a.part id) := by
  unfold part at h ⊢
  split at h
  · rename_i session q eq
    by_cases here : session = id
    · rw [eq, if_pos here, here]
    · exact absurd (if_neg here) h
  · exact absurd rfl h

theorem part_shape (id : SessionId) (a : Activity) : a.shape.part id = a.part id := by
  cases a with
  | step s waiting => cases waiting <;> rfl
  | delivering d errand => cases errand <;> rfl
  | _ => rfl

theorem isRoot_shape (a : Activity) : a.shape.isRoot = a.isRoot := by
  cases a with
  | program frame rest => cases frame <;> rfl
  | step s waiting => cases waiting <;> rfl
  | delivering d errand => cases errand <;> rfl
  | _ => rfl

theorem about_of_closing (h : a.closing? = some id) : a.about? = some (id, .closes) := by
  unfold closing? at h
  split at h
  · rw [about?, Option.some.inj h]
  · cases h

theorem closing_of_about (h : a.about? = some (id, .closes)) : a.closing? = some id := by
  cases a with
  | step s waiting =>
    cases waiting with
    | closing i => rw [closing?, (Prod.mk.inj (Option.some.inj h)).1]
    | _ => cases h
  | delivering d errand => cases errand <;> cases h
  | _ => cases h

theorem isRoot_of_about (h : a.about? = some (id, p)) : a.isRoot = false := by
  cases a <;> first | rfl | cases h

end Activity

/-! ## How a session stands -/

/-- How a session stands. -/
inductive Stand where
  /-- Host code runs, on top of a spine. -/
  | seated (S : Spine)
  /-- The host waits, on top of a spine. -/
  | under (k : Wait) (S : Spine)
  | shut

namespace Stand

def spine : Stand → Spine
  | .seated S | .under _ S => S
  | .shut => []

/-- Whether the host waits. -/
def waits : Stand → Bool
  | .under .. => true
  | _ => false

/-- Whether a session stands like this. -/
def Holds : Stand → Session → Prop
  | .seated S => Session.On S.thread S
  | .under k S => Session.Under (k, S)
  | .shut => Session.Shut

theorem steady (q : Stand) : Session.Steady q.Holds := by
  cases q with
  | seated S => exact Session.steady_on _ _
  | under k S => exact Session.steady_under _
  | shut => exact Session.steady_shut

theorem Holds.isOpen {q : Stand} {s : Session} (h : q.Holds s) : s.isOpen = true ↔ q ≠ .shut := by
  cases q with
  | seated S => simp [Session.On.isOpen h]
  | under k S => simp [Session.Under.isOpen h]
  | shut => simp [Session.Shut.isOpen h]

end Stand

/-- Whether the values that have been put on a host's frame, the latest first, are what the values
that they were put there for have been for the runtime. -/
def Conforms (told : Value → Script.Value → Prop) (vs : List Value) (new : List Script.Value) : Prop :=
  ∀ (i : Nat) (v : Value) (x : Script.Value),
    vs[i]? = some v → new.reverse[i]? = some x → told v x

theorem conforms_nil (told : Value → Script.Value → Prop) (vs : List Value) : Conforms told vs [] :=
  fun _ _ _ _ hx => by simp at hx

/-- When as many are there as there are values, each is what its value has been. -/
theorem Conforms.all {told : Value → Script.Value → Prop} {vs : List Value}
    {new : List Script.Value} (h : Conforms told vs new) (count : new.length = vs.length) :
    List.Forall₂ told vs new.reverse := by
  rw [List.forall₂_iff_get]
  refine ⟨by rw [List.length_reverse, count], fun i hv hx => ?_⟩
  exact h i _ _ (List.getElem?_eq_getElem hv) (List.getElem?_eq_getElem hx)

/-- How the parts of the activities in progress, the innermost first, lie on each other.  The values
on a host's frame are what the arguments or the results that are there have been for the runtime:
`told`.  Below the arguments of a call lies what is called, and below the value of an assignment the
table and the key. -/
inductive Nested (told : Value → Script.Value → Prop) (noted : Nat → Spine → Prop) :
    List Part → Stand → List Spine → Prop
  | shut {ps : List Part} : (∀ p ∈ ps, p = .apart) → Nested told noted ps .shut []
  | begun {info : FrameInfo} {upvalue : Script.Value} :
      noted 0 [(Script.Machine.main, .host info upvalue [])] →
      Nested told noted [] (.seated [(Script.Machine.main, .host info upvalue [])]) []
  | apart {ps : List Part} {S : Spine} {callers : List Spine} : noted (ps.length + 1) S →
      Nested told noted ps (.seated S) callers →
      Nested told noted (.apart :: ps) (.seated S) callers
  | runs {ps : List Part} {t : ThreadId} {info : FrameInfo} {upvalue : Script.Value}
      {operands : List Script.Value} {S : Spine} {callers : List Spine} :
      Nested told noted ps (.seated ((t, .host info upvalue operands) :: S)) callers →
      Nested told noted (.runs operands.length :: ps)
        (.under .call ((t, .host info upvalue operands) :: S)) callers
  | sends {ps : List Part} {t : ThreadId} {info : FrameInfo} {upvalue f : Script.Value}
      {operands new : List Script.Value} {S : Spine} {callers : List Spine} {vs : List Value}
      {missing all : Nat} :
      noted (ps.length + 1) ((t, .host info upvalue (new ++ f :: operands)) :: S) →
      new.length + missing = all → Conforms told vs new →
      Nested told noted ps (.seated ((t, .host info upvalue operands) :: S)) callers →
      Nested told noted (.sends t operands.length f vs missing all :: ps)
        (.seated ((t, .host info upvalue (new ++ f :: operands)) :: S)) callers
  | assigns {ps : List Part} {t : ThreadId} {info : FrameInfo} {upvalue : Script.Value}
      {operands new : List Script.Value} {S : Spine} {callers : List Spine} {missing : Nat} :
      noted (ps.length + 1) ((t, .host info upvalue (new ++ operands)) :: S) →
      new.length + missing = 3 →
      Nested told noted ps (.seated ((t, .host info upvalue operands) :: S)) callers →
      Nested told noted (.assigns t operands.length missing :: ps)
        (.seated ((t, .host info upvalue (new ++ operands)) :: S)) callers
  | serves {ps : List Part} {t : ThreadId} {info : FrameInfo} {upvalue : Script.Value} {S B : Spine}
      {k : Wait} {callers : List Spine} :
      noted (ps.length + 1) ((t, .host info upvalue []) :: S) → S ≠ [] → S.ground = (k, B) →
      Nested told noted ps (.under k B) callers →
      Nested told noted (.serves (some B.thread) :: ps) (.seated ((t, .host info upvalue []) :: S))
        (((t, .host info upvalue []) :: S) :: callers)
  | answers {ps : List Part} {t : ThreadId} {info : FrameInfo} {upvalue : Script.Value}
      {operands : List Script.Value} {S B : Spine} {k : Wait} {callers : List Spine}
      {vs : List Value} {missing all : Nat} :
      noted (ps.length + 1) ((t, .host info upvalue operands) :: S) → S ≠ [] → S.ground = (k, B) →
      operands.length + missing = all → Conforms told vs operands →
      Nested told noted ps (.under k B) callers →
      Nested told noted (.answers t (some B.thread) vs missing all :: ps)
        (.seated ((t, .host info upvalue operands) :: S)) (((t, .host info upvalue []) :: S) :: callers)
  | sweeps {ps : List Part} {S : Spine} {callers : List Spine} :
      Nested told noted ps (.seated S) callers →
      Nested told noted (.sweeps :: ps) (.under .sweep S) callers
  | closes {ps : List Part} : (∀ p ∈ ps, p = .apart) →
      Nested told noted (.closes :: ps) (.under .close []) []

variable {ps : List Part} {p : Part} {q : Stand} {callers : List Spine} {S B : Spine} {k : Wait}
  {t : ThreadId} {info : FrameInfo} {upvalue : Script.Value} {operands new : List Script.Value}
  {told told' : Value → Script.Value → Prop} {noted : Nat → Spine → Prop}

namespace Nested

/-- An activity that has nothing to do with the session begins. -/
theorem cover (h : Nested told noted ps q callers) (seated : q.waits = false)
    (clean : ∀ S, noted (ps.length + 1) S) : Nested told noted (.apart :: ps) q callers := by
  cases q with
  | seated S => exact .apart (clean S) h
  | under k S => cases seated
  | shut =>
    cases h with
    | shut all =>
      refine .shut fun p hp => ?_
      obtain rfl | hp := List.mem_cons.mp hp
      · rfl
      · exact all p hp

/-- An activity that has nothing to do with the session ends. -/
theorem skip (h : Nested told noted (.apart :: ps) q callers) : Nested told noted ps q callers := by
  cases h with
  | shut all => exact .shut fun p hp => all p (List.mem_cons_of_mem _ hp)
  | apart _ below => exact below

/-- A session that is new. -/
theorem fresh (all : ∀ p ∈ ps, p = .apart) (clean : ∀ i S, noted i S) :
    Nested told noted ps (.seated [(Script.Machine.main, .host info upvalue [])]) [] := by
  induction ps with
  | nil => exact .begun (clean 0 _)
  | cons p ps ih =>
    rw [all p List.mem_cons_self]
    exact .apart (clean _ _) (ih fun p hp => all p (List.mem_cons_of_mem _ hp))

/-- Host operations run on the thread on which the innermost host callable in progress was called,
or on the main thread. -/
theorem thread (h : Nested told noted ps q callers) :
    q.spine.thread = (callers.head?.map Spine.thread).getD Script.Machine.main := by
  induction h with
  | shut | begun | serves | answers | closes => rfl
  | apart _ _ ih | runs _ ih | sends _ _ _ _ ih | assigns _ _ _ ih | sweeps _ ih => exact ih

/-- There are as many callers as host callables in progress. -/
theorem length (h : Nested told noted ps q callers) : callers.length = ps.countP Part.isCall := by
  have none : ∀ ps : List Part, (∀ p ∈ ps, p = .apart) → ps.countP Part.isCall = 0 := by
    intro ps all
    rw [List.countP_eq_zero]
    intro p hp
    rw [all p hp]
    simp [Part.isCall]
  induction h with
  | shut all => exact (none _ all).symm
  | begun => rfl
  | apart _ _ ih | runs _ ih | sends _ _ _ _ ih | assigns _ _ _ ih | sweeps _ ih =>
    rw [ih, List.countP_cons_of_neg (by simp [Part.isCall])]
  | serves _ _ _ _ ih | answers _ _ _ _ _ _ ih =>
    rw [List.length_cons, ih, List.countP_cons_of_pos rfl]
  | closes all => rw [List.countP_cons_of_neg (by simp [Part.isCall]), none _ all]; rfl

/-- A session that nobody uses has no calls in progress. -/
theorem idle (h : Nested told noted ps q callers) (seated : q.waits = false)
    (unused : ∀ p ∈ ps, p = .apart ∨ ∃ previous, p = .serves previous) :
    (∀ p ∈ ps, p = .apart) ∧ callers = [] := by
  induction h with
  | shut all => exact ⟨all, rfl⟩
  | begun => exact ⟨by simp, rfl⟩
  | apart _ _ ih =>
    obtain ⟨all, empty⟩ := ih rfl fun p hp => unused p (List.mem_cons_of_mem _ hp)
    refine ⟨fun p hp => ?_, empty⟩
    obtain rfl | hp := List.mem_cons.mp hp
    · rfl
    · exact all p hp
  | runs | sweeps | closes => cases seated
  | sends | assigns | answers => simpa using unused _ List.mem_cons_self
  | serves _ _ _ below =>
    -- what called the host callable is a script that the host waits for
    cases below with
    | runs | sweeps | closes => simpa using unused _ (List.mem_cons_of_mem _ List.mem_cons_self)

/-- Where host code runs, the host's frame is on top. -/
theorem host (h : Nested told noted ps (.seated S) callers) : ∃ t info upvalue operands S',
    S = (t, .host info upvalue operands) :: S' := by
  generalize eq : Stand.seated S = q at h
  induction h with
  | shut | runs | sweeps | closes => cases eq
  | apart _ _ ih => exact ih eq
  | begun | sends | assigns | serves | answers =>
    cases eq
    exact ⟨_, _, _, _, _, rfl⟩

theorem apart_of_shut (h : Nested told noted ps .shut callers) : (∀ p ∈ ps, p = .apart) ∧ callers = [] := by
  cases h with
  | shut all => exact ⟨all, rfl⟩

end Nested

namespace World

variable {π : Past} {w w' : World} {id j : SessionId} {r : Option SessionId} {s : Session}
  {Ss : SessionId → List Spine} {I : Session → Prop} {a : Activity} {rest : List Activity}

/-- What the activities in progress are for a session. -/
def parts (w : World) (id : SessionId) : List Part := w.activities.map (Activity.part id)

theorem parts_calm (h : w.Calm w') (id : SessionId) : w'.parts id = w.parts id := by
  have part : Activity.part id ∘ Activity.shape = Activity.part id :=
    funext (Activity.part_shape id)
  have shapes := congrArg (List.map (Activity.part id)) h.shapes
  rwa [List.map_map, List.map_map, part] at shapes

/-- Whether a session, if it is there, stands as the activities say, and the host waits for it or
does not. -/
def Lies (w : World) (π : Past) (id : SessionId) (callers : List Spine) (waits : Bool) : Prop :=
  ∀ s : Session, w.sessions[id]? = some s →
    ∃ q : Stand, Nested (π.told id) (π.noted id) (w.parts id) q callers ∧ q.Holds s ∧ q.waits = waits

theorem Lies.calm {waits : Bool} (h : w.Lies π id callers waits) (calm : w.Calm w') :
    w'.Lies π id callers waits := by
  intro s' hs'
  obtain ⟨s, hs, still, -⟩ := calm.before hs'
  obtain ⟨q, nested, holds, eq⟩ := h s hs
  exact ⟨q, parts_calm calm id ▸ nested, q.steady s s' holds still, eq⟩

/-- What holds of all sessions, however they stand: those that programs can name are open, and not
about to be closed. -/
structure Orderly (π : Past) (Ss : SessionId → List Spine) (w : World) : Prop where
  absent : ∀ id : SessionId, w.sessions[id]? = none → (∀ p ∈ w.parts id, p = .apart) ∧ Ss id = []
  named : ∀ e ∈ w.names, (∃ s : Session, w.sessions[e.2]? = some s ∧ s.isOpen = true)
    ∧ .closes ∉ w.parts e.2
  distinct : (w.names.map Prod.snd).Nodup
  numbered : ∀ (id : SessionId) (s : Session), w.sessions[id]? = some s → id ≤ w.issued
  rooted : ∀ a ∈ w.activities.dropLast, a.isRoot = false
  routed : w.Routed π
  clean : π.Clean w.activities.length
  unborn : ∀ (id : SessionId), w.issued < id → ∀ i S, π.noted id i S

/-- Whether every session stands as the activities say; at most the runtime of session `r` runs. -/
structure Nests (π : Past) (r : Option SessionId) (Ss : SessionId → List Spine) (w : World) : Prop
    extends w.Orderly π Ss where
  lies : ∀ id, w.Lies π id (Ss id) (decide (r = some id))
  runs : ∀ id, r = some id → ∃ s, w.sessions[id]? = some s

/-- Whether the host works on a session, while all others stand as the activities say. -/
structure Mid (π : Past) (id : SessionId) (ps : List Part) (I : Session → Prop)
    (Ss : SessionId → List Spine) (w : World) : Prop extends w.Orderly π Ss where
  session : ∃ s, w.sessions[id]? = some s ∧ I s
  parts : w.parts id = ps
  others : ∀ j, j ≠ id → w.Lies π j (Ss j) false

theorem Mid.weaken {J : Session → Prop} (h : w.Mid π id ps I Ss) (less : ∀ s, I s → J s) :
    w.Mid π id ps J Ss := by
  obtain ⟨s, hs, holds⟩ := h.session
  exact ⟨h.toOrderly, ⟨s, hs, less s holds⟩, h.parts, h.others⟩

theorem length_calm (calm : w.Calm w') : w'.activities.length = w.activities.length := by
  have shapes := congrArg List.length calm.shapes
  rwa [List.length_map, List.length_map] at shapes

/-- Nothing is noted of more activities than those in progress. -/
theorem Mid.above (h : w.Mid π id ps I Ss) : π.Clean ps.length := by
  rw [← h.parts, World.parts, List.length_map]
  exact h.clean

theorem Orderly.calm (h : w.Orderly π Ss) (calm : w.Calm w') : w'.Orderly π Ss := by
  have part := parts_calm calm
  refine ⟨fun id hs' => ?_, fun e he => ?_, calm.names ▸ h.distinct, fun id s' hs' => ?_,
    fun a ha => ?_, h.routed.calm calm, length_calm calm ▸ h.clean,
    fun id young => h.unborn id (Nat.lt_of_le_of_lt calm.ages.issued young)⟩
  · rw [part]
    refine h.absent id ?_
    cases hs : w.sessions[id]? with
    | none => rfl
    | some s =>
      obtain ⟨_, there, _⟩ := calm.some hs
      rw [hs'] at there
      cases there
  · rw [calm.names] at he
    obtain ⟨⟨s, hs, isOpen⟩, closes⟩ := h.named e he
    obtain ⟨s', hs', still, -⟩ := calm.some hs
    exact ⟨⟨s', hs', still.isOpen.trans isOpen⟩, part e.2 ▸ closes⟩
  · obtain ⟨s, hs, -⟩ := calm.before hs'
    exact Nat.le_trans (h.numbered id s hs) calm.ages.issued
  · have shape : a.shape ∈ w'.activities.dropLast.map Activity.shape := List.mem_map_of_mem ha
    rw [List.map_dropLast, calm.shapes, ← List.map_dropLast] at shape
    obtain ⟨b, hb, eq⟩ := List.mem_map.mp shape
    rw [← Activity.isRoot_shape, ← eq, Activity.isRoot_shape]
    exact h.rooted b hb

theorem steady_nests (π : Past) (r : Option SessionId) (Ss : SessionId → List Spine) :
    Steady (Nests π r Ss) := by
  intro w w' h calm
  refine ⟨h.toOrderly.calm calm, fun id => (h.lies id).calm calm, fun id hr => ?_⟩
  obtain ⟨s, hs⟩ := h.runs id hr
  obtain ⟨s', hs', -⟩ := calm.some hs
  exact ⟨s', hs'⟩

theorem steady_mid (steady : Session.Steady I) : Steady (Mid π id ps I Ss) := by
  intro w w' h calm
  obtain ⟨s, hs, holds⟩ := h.session
  obtain ⟨s', hs', still, -⟩ := calm.some hs
  exact ⟨h.toOrderly.calm calm, ⟨s', hs', steady s s' holds still⟩,
    (parts_calm calm id).trans h.parts, fun j ne => (h.others j ne).calm calm⟩

/-! ## Activities begin and end -/

theorem Orderly.push (h : w.Orderly π Ss)
    (there : ∀ id p, a.about? = some (id, p) → ∃ s, w.sessions[id]? = some s)
    (stays : ∀ id, a.about? = some (id, .closes) → ∀ e ∈ w.names, e.2 ≠ id)
    (inner : a.isRoot = false) : Orderly π Ss { w with activities := a :: w.activities } := by
  refine ⟨fun id none => ?_, fun e he => ⟨(h.named e he).1, fun closes => ?_⟩, h.distinct,
    h.numbered, fun b hb => ?_, h.routed.push a, h.clean.mono (Nat.le_succ _), h.unborn⟩
  · obtain ⟨all, empty⟩ := h.absent id none
    refine ⟨fun p hp => ?_, empty⟩
    obtain rfl | hp := List.mem_cons.mp hp
    · by_contra about
      obtain ⟨s, hs⟩ := there id _ (Activity.about_of_part about)
      cases none.symm.trans hs
    · exact all p hp
  · obtain closes | closes := List.mem_cons.mp closes
    · have about := Activity.about_of_part (show a.part e.2 ≠ .apart by rw [← closes]; simp)
      exact stays e.2 (by rw [about, closes]) e he rfl
    · exact (h.named e he).2 closes
  · cases hw : w.activities with
    | nil => rw [hw] at hb; cases hb
    | cons c rest =>
      rw [hw, List.dropLast_cons_cons, ← hw] at hb
      obtain rfl | hb := List.mem_cons.mp hb
      · exact inner
      · exact h.rooted b hb

theorem Orderly.pop (h : w.Orderly π Ss) (hw : w.activities = a :: rest) (clean : π.Clean rest.length)
    (dropped : ∀ id, a.closing? = some id → w.directory.registrations[id]? = none) :
    Orderly π Ss { w with activities := w.activities.drop 1 } := by
  have less : ∀ id, ∀ p ∈ (w.activities.drop 1).map (Activity.part id), p ∈ w.parts id :=
    fun id p hp => (List.map_subset _ (List.drop_subset 1 _)) hp
  refine ⟨fun id none => ?_, fun e he => ⟨(h.named e he).1, fun closes => ?_⟩, h.distinct,
    h.numbered, fun b hb => h.rooted b ?_, h.routed.pop hw dropped, by rw [hw]; exact clean, h.unborn⟩
  · obtain ⟨all, empty⟩ := h.absent id none
    exact ⟨fun p hp => all p (less id p hp), empty⟩
  · exact (h.named e he).2 (less e.2 _ closes)
  · change b ∈ (w.activities.drop 1).dropLast at hb
    rw [hw] at hb ⊢
    cases rest with
    | nil => cases hb
    | cons c rest => exact List.mem_cons_of_mem _ hb

theorem Lies.push (h : w.Lies π j callers false) (apart : a.part j = .apart)
    (clean : π.Clean w.activities.length) :
    Lies { w with activities := a :: w.activities } π j callers false := by
  intro s hs
  obtain ⟨q, nested, holds, seated⟩ := h s hs
  refine ⟨q, ?_, holds, seated⟩
  change Nested (π.told j) (π.noted j) (a.part j :: w.parts j) q callers
  rw [apart]
  refine nested.cover seated fun S => clean j _ S ?_
  rw [World.parts, List.length_map]
  exact Nat.lt_succ_self _

theorem Lies.pop (h : w.Lies π j callers false) (hw : w.activities = a :: rest)
    (apart : a.part j = .apart) :
    Lies { w with activities := w.activities.drop 1 } π j callers false := by
  intro s hs
  obtain ⟨q, nested, holds, seated⟩ := h s hs
  refine ⟨q, Nested.skip ?_, holds, seated⟩
  rw [World.parts, hw] at nested
  rwa [World.parts, hw, ← apart]

theorem leads_begin (about : a.about? = some (id, p)) (stays : p ≠ .closes) :
    Leads (Mid π id ps I Ss) (begin a) fun _ => Mid π id (p :: ps) I Ss := by
  intro w h
  refine ⟨h.toOrderly.push (fun i p' eq => ?_) (fun i eq => ?_) (Activity.isRoot_of_about about),
    h.session, ?_, fun j ne => ?_⟩
  · obtain ⟨s, hs, -⟩ := h.session
    obtain ⟨rfl, -⟩ := Prod.mk.inj (Option.some.inj (about.symm.trans eq))
    exact ⟨s, hs⟩
  · exact absurd (Prod.mk.inj (Option.some.inj (about.symm.trans eq))).2 stays
  · change a.part id :: w.parts id = _
    rw [Activity.part_self about, h.parts]
  · exact (h.others j ne).push (Activity.part_of_ne about ne) h.clean

/-- The innermost activity ends.  If the session has been closed, it is dropped. -/
theorem Mid.pop (h : w.Mid π id (p :: ps) I Ss) (about : p ≠ .apart) (clean : π.Clean ps.length)
    (dropped : p = .closes → w.directory.registrations[id]? = none) :
    Mid π id ps I Ss { w with activities := w.activities.drop 1 } := by
  obtain ⟨a, rest, hw, ha, parts⟩ := List.map_eq_cons_iff.mp h.parts
  have own := Activity.about_of_part (show a.part id ≠ .apart by rwa [ha])
  refine ⟨h.toOrderly.pop hw (by rwa [← parts, List.length_map] at clean) fun i closing => ?_,
    h.session, ?_, fun j ne => ?_⟩
  · obtain ⟨rfl, closes⟩ := Prod.mk.inj (Option.some.inj
      (own.symm.trans (Activity.about_of_closing closing)))
    exact dropped (ha.symm.trans closes)
  · change (w.activities.drop 1).map _ = ps
    rw [hw]
    exact parts
  · exact (h.others j ne).pop hw (Activity.part_of_ne own ne)

theorem leads_finishTop (about : p ≠ .apart ∧ p ≠ .closes) (clean : π.Clean ps.length) :
    Leads (Mid π id (p :: ps) I Ss) finishTop fun _ => Mid π id ps I Ss :=
  fun _ h => h.pop about.1 clean fun closes => absurd closes about.2

theorem leads_replaceTop {p' : Part} (about : a.about? = some (id, p')) (stays : p' ≠ .closes)
    (was : p ≠ .apart ∧ p ≠ .closes) (clean : π.Clean ps.length) :
    Leads (Mid π id (p :: ps) I Ss) (replaceTop a) fun _ => Mid π id (p' :: ps) I Ss :=
  (leads_finishTop was clean).bind fun _ => leads_begin about stays

/-! ## Work on one session -/

/-- The session is open, and stays so. -/
theorem Mid.onSession {α : Type} [Inhabited α] {op : Op α} {J : α → Session → Prop}
    (h : w.Mid π id ps I Ss) (leads : Leads I op J) (before : ∀ s, I s → s.isOpen = true)
    (after : ∀ a s, J a s → s.isOpen = true) :
    Mid π id ps (J ((World.onSession id op).run w).1) Ss ((World.onSession id op).run w).2 := by
  obtain ⟨s, hs, holds⟩ := h.session
  have holds' := leads s holds
  rw [onSession_run_some hs]
  have other : ∀ j, j ≠ id → (w.withSession id (op.run s).2).sessions[j]? = w.sessions[j]? :=
    fun j ne => getElem?_withSession_of_ne ne
  have own := getElem?_withSession_self w id (op.run s).2
  refine ⟨⟨fun j none => ?_, fun e he => ⟨?_, (h.named e he).2⟩, h.distinct, fun j s' hs' => ?_,
    h.rooted, h.routed.withSession hs (before s holds) (after _ _ holds'), h.clean, h.unborn⟩,
    ⟨_, own, holds'⟩, h.parts, fun j ne s' hs' => ?_⟩
  · by_cases here : j = id
    · rw [here, own] at none
      cases none
    · exact h.absent j ((other j here).symm.trans none)
  · by_cases here : e.2 = id
    · rw [here]
      exact ⟨_, own, after _ _ holds'⟩
    · rw [other _ here]
      exact (h.named e he).1
  · by_cases here : j = id
    · exact here ▸ h.numbered id s hs
    · exact h.numbered j s' ((other j here).symm.trans hs')
  · exact h.others j ne s' ((other j ne).symm.trans hs')

theorem leads_onSession {α : Type} [Inhabited α] {op : Op α} {J : α → Session → Prop}
    (leads : Leads I op J) (before : ∀ s, I s → s.isOpen = true)
    (after : ∀ a s, J a s → s.isOpen = true) :
    Leads (Mid π id ps I Ss) (onSession id op) fun a => Mid π id ps (J a) Ss :=
  fun _ h => h.onSession leads before after

/-- The session map leads to a session that is open. -/
theorem leads_ownerOf (isOpen : ∀ s, I s → s.isOpen = true) :
    Leads (Mid π id ps I Ss) (ownerOf id) fun owner w => owner = some id ∧ Mid π id ps I Ss w := by
  intro w h
  obtain ⟨s, hs, holds⟩ := h.session
  obtain ⟨found, routed⟩ := h.routed.resolve ⟨s, hs, isOpen s holds⟩
  exact ⟨found, ⟨h.absent, h.named, h.distinct, h.numbered, h.rooted, routed, h.clean, h.unborn⟩,
    ⟨s, hs, holds⟩,
    h.parts, h.others⟩

/-! ## One session and all sessions -/

/-- A session that is open is worked on while no runtime runs. -/
theorem Nests.mid (h : w.Nests π none Ss) (hs : w.sessions[id]? = some s) (isOpen : s.isOpen = true) :
    ∃ S, Nested (π.told id) (π.noted id) (w.parts id) (.seated S) (Ss id)
      ∧ Mid π id (w.parts id) (Session.On S.thread S) Ss w := by
  obtain ⟨q, nested, holds, seated⟩ := h.lies id s hs
  cases q with
  | seated S => exact ⟨S, nested, h.toOrderly, ⟨s, hs, holds⟩, rfl, fun j _ => h.lies j⟩
  | under k S => cases seated
  | shut => exact absurd rfl (holds.isOpen.mp isOpen)

/-- So is the session that the innermost activity is about. -/
theorem Nests.mid_top (h : w.Nests π none Ss) (hw : w.activities = a :: rest)
    (about : a.about? = some (id, p)) (some : p ≠ .apart) :
    ∃ S, Nested (π.told id) (π.noted id) (p :: rest.map (Activity.part id)) (.seated S) (Ss id)
      ∧ Mid π id (p :: rest.map (Activity.part id)) (Session.On S.thread S) Ss w := by
  have parts : w.parts id = p :: rest.map (Activity.part id) := by
    rw [World.parts, hw, List.map_cons, Activity.part_self about]
  rw [← parts]
  have there : ∃ p ∈ w.parts id, p ≠ .apart := ⟨p, by rw [parts]; exact List.mem_cons_self, some⟩
  obtain ⟨p, hp, about⟩ := there
  cases hs : w.sessions[id]? with
  | none => exact absurd ((h.absent id hs).1 p hp) about
  | some s =>
    obtain ⟨q, nested, holds, seated⟩ := h.lies id s hs
    cases q with
    | seated S => exact ⟨S, nested, h.toOrderly, ⟨s, hs, holds⟩, rfl, fun j _ => h.lies j⟩
    | under k S => cases seated
    | shut => exact absurd (nested.apart_of_shut.1 p hp) about

/-- The session whose runtime runs is open. -/
theorem Nests.mid_script (h : w.Nests π (some id) Ss) :
    ∃ k S, Nested (π.told id) (π.noted id) (w.parts id) (.under k S) (Ss id)
      ∧ Mid π id (w.parts id) (Session.Under (k, S)) Ss w := by
  obtain ⟨s, hs⟩ := h.runs id rfl
  obtain ⟨q, nested, holds, waits⟩ := h.lies id s hs
  rw [decide_eq_true rfl] at waits
  cases q with
  | under k S =>
    refine ⟨k, S, nested, h.toOrderly, ⟨s, hs, holds⟩, rfl, fun j ne => ?_⟩
    have other := h.lies j
    rwa [decide_eq_false fun eq => ne (Option.some.inj eq).symm] at other
  | seated | shut => cases waits

/-- Whoever works on a session leaves it as the activities say. -/
theorem Mid.nests (h : w.Mid π id ps q.Holds Ss) (nested : Nested (π.told id) (π.noted id) ps q callers) :
    w.Nests π (if q.waits then some id else none) (Function.update Ss id callers) := by
  obtain ⟨s, hs, holds⟩ := h.session
  refine ⟨⟨fun j none => ?_, h.named, h.distinct, h.numbered, h.rooted, h.routed, h.clean, h.unborn⟩,
    fun j s' hs' => ?_, fun j runs => ?_⟩
  · have ne : j ≠ id := fun eq => by rw [eq, hs] at none; cases none
    rw [Function.update_of_ne ne]
    exact h.absent j none
  · by_cases here : j = id
    · subst here
      cases hs.symm.trans hs'
      rw [Function.update_self, h.parts]
      refine ⟨q, nested, holds, ?_⟩
      cases q.waits <;> simp
    · rw [Function.update_of_ne here]
      obtain ⟨q', nested', holds', seated⟩ := h.others j here s' hs'
      refine ⟨q', nested', holds', seated.trans ?_⟩
      cases q.waits
      · rfl
      · exact (decide_eq_false fun eq => here (Option.some.inj eq).symm).symm
  · cases waits : q.waits with
    | false => rw [waits] at runs; cases runs
    | true =>
      rw [waits] at runs
      exact ⟨s, Option.some.inj runs ▸ hs⟩

theorem Mid.back (h : w.Mid π id ps (Session.On S.thread S) Ss)
    (nested : Nested (π.told id) (π.noted id) ps (.seated S) (Ss id)) : w.Nests π none Ss := by
  have nests := Mid.nests (q := .seated S) h nested
  rwa [Function.update_eq_self] at nests

end World

end ScriptBridge.Host

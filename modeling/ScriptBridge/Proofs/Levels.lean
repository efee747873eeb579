import ScriptBridge.Proofs.Threads
import ScriptBridge.Proofs.Underway

/-!
# ScriptBridge.Proofs.Levels

How high the stacks of runtimes are in any run.  A step of a program leaves all stacks that host code
works on at the level at which it found them, with all that was on them, whatever the step runs in
between: scripts, host callables that they call, steps of those.  For this a `Past` takes note of how
every session stands when the step begins; the note stays true as long as the step is in progress,
because only what is innermost changes, and it is read off when the step has ended.

Main facts:

* `World.Spans.level` — a step leaves all stacks at their level;
* `World.Nests.raised` — a runtime that has raised an error has left it on the host's frame;
* `World.Nests.returns` — a host function returns with as many values as there are results;
* `levels_run` — all this in any run.
-/

namespace ScriptBridge

open Script (Spine Wait FrameInfo ThreadId)

/-- The frames of the running coroutine are told from those below by the coroutine. -/
theorem Script.Spine.split_eq {t : ThreadId} {frames frames' : List Script.Frame} {S S' : Spine}
    (apart : ∀ p ∈ S, p.1 ≠ t) (apart' : ∀ p ∈ S', p.1 ≠ t)
    (eq : frames.map (t, ·) ++ S = frames'.map (t, ·) ++ S') : frames = frames' ∧ S = S' := by
  induction frames generalizing frames' with
  | nil =>
    cases frames' with
    | nil => exact ⟨rfl, eq⟩
    | cons f frames' => exact absurd rfl (apart (t, f) ((show S = _ from eq) ▸ List.mem_cons_self))
  | cons f frames ih =>
    cases frames' with
    | nil => exact absurd rfl (apart' (t, f) ((show S' = _ from eq.symm) ▸ List.mem_cons_self))
    | cons f' frames' =>
      obtain ⟨top, eq⟩ := List.cons.inj eq
      obtain ⟨same, below⟩ := ih eq
      exact ⟨by rw [(Prod.mk.inj top).2, same], below⟩

namespace Session

variable {s s' : Session} {S : Spine}

/-- Whether the stacks that host code works on are as they were: host operations run on the same
thread, the runtime is in the same coroutine with the same frames and all that is on them, and so are
the coroutines that wait for it. -/
structure Level (s s' : Session) : Prop where
  active : s'.active = s.active
  current : s'.machine.current = s.machine.current
  frames : s'.machine.frames = s.machine.frames
  height : s'.height = s.height
  waiting : ∃ S, s.machine.Waits s.machine.current S ∧ s'.machine.Waits s'.machine.current S

theorem level_of_on (h : On S.thread S s) (h' : On S.thread S s') : s.Level s' := by
  obtain ⟨info, upvalue, operands, below, eq⟩ := h.idle.cons
  subst eq
  obtain ⟨current, rest, T, frames, stacked, split⟩ := h.idle.top
  obtain ⟨current', rest', T', frames', stacked', split'⟩ := h'.idle.top
  have apart := stacked.waits.fresh
  have apart' := stacked'.waits.fresh
  rw [split, current'] at split'
  rw [current'] at apart'
  obtain ⟨rfl, rfl⟩ := Script.Spine.split_eq apart apart' split'
  exact ⟨h'.active.trans h.active.symm, current', frames'.trans frames.symm,
    h'.height.trans h.height.symm, T, stacked.waits, stacked'.waits⟩

end Session

namespace Host

variable {ps : List Part} {q : Stand} {callers : List Spine} {S : Spine}
  {told : Value → Script.Value → Prop} {noted noted' : Nat → Spine → Prop}

/-! ## Notes -/

namespace Nested

/-- Notes of as many activities as are in progress or fewer may be others. -/
theorem renote (h : Nested told noted ps q callers) (all : ∀ i ≤ ps.length, ∀ S, noted' i S) :
    Nested told noted' ps q callers := by
  induction h with
  | shut apart => exact .shut apart
  | begun => exact .begun (all 0 (Nat.le_refl 0) _)
  | apart _ _ ih =>
    exact .apart (all _ (Nat.le_refl _) _) (ih fun i le => all i (Nat.le_succ_of_le le))
  | runs _ ih => exact .runs (ih fun i le => all i (Nat.le_succ_of_le le))
  | sends _ count given _ ih =>
    exact .sends (all _ (Nat.le_refl _) _) count given (ih fun i le => all i (Nat.le_succ_of_le le))
  | assigns _ count _ ih =>
    exact .assigns (all _ (Nat.le_refl _) _) count (ih fun i le => all i (Nat.le_succ_of_le le))
  | serves _ deep ground _ ih =>
    exact .serves (all _ (Nat.le_refl _) _) deep ground (ih fun i le => all i (Nat.le_succ_of_le le))
  | answers _ deep ground count given _ ih =>
    exact .answers (all _ (Nat.le_refl _) _) deep ground count given
      (ih fun i le => all i (Nat.le_succ_of_le le))
  | sweeps _ ih => exact .sweeps (ih fun i le => all i (Nat.le_succ_of_le le))
  | closes apart => exact .closes apart

/-- A note is taken of how the session stands now. -/
theorem note (h : Nested told noted ps q callers) (low : ∀ i < ps.length, ∀ S, noted' i S)
    (here : ∀ S, q = .seated S → noted' ps.length S) : Nested told noted' ps q callers := by
  have below : ∀ {p ps' q callers}, p :: ps' = ps → Nested told noted ps' q callers →
      Nested told noted' ps' q callers := by
    rintro p ps' q callers rfl h
    exact h.renote fun i le => low i (Nat.lt_succ_of_le le)
  cases h with
  | shut apart => exact .shut apart
  | begun => exact .begun (here _ rfl)
  | apart _ h => exact .apart (here _ rfl) (below rfl h)
  | runs h => exact .runs (below rfl h)
  | sends _ count given h => exact .sends (here _ rfl) count given (below rfl h)
  | assigns _ count h => exact .assigns (here _ rfl) count (below rfl h)
  | serves _ deep ground h => exact .serves (here _ rfl) deep ground (below rfl h)
  | answers _ deep ground count given h =>
    exact .answers (here _ rfl) deep ground count given (below rfl h)
  | sweeps h => exact .sweeps (below rfl h)
  | closes apart => exact .closes apart

/-- What is noted of a session on which host code runs. -/
theorem noted_of_seated (h : Nested told noted ps (.seated S) callers) : noted ps.length S := by
  cases h with
  | begun here => exact here
  | apart here _ | sends here _ _ _ | assigns here _ _ | serves here _ _ _ => exact here
  | answers here _ _ _ _ _ => exact here

end Nested

/-- What has become of things, with a note of how all sessions stand in a world. -/
def Past.noting (π : Past) (w : World) : Past := { π with
  noted := fun id i S => i = w.activities.length → ∀ s, w.sessions[id]? = some s →
    s.isOpen = true → Session.On S.thread S s }

namespace World

variable {π : Past} {w w' w₀ : World} {id : SessionId} {s s' : Session}
  {Ss : SessionId → List Spine} {base : List Activity} {n : Nat}

theorem clean_noting (π : Past) (w : World) : (π.noting w).Clean w.activities.length :=
  fun _ _ _ lt eq => absurd eq (Nat.ne_of_gt lt)

/-- While host code runs, a note can be taken. -/
theorem Nests.noting (h : w.Nests π none Ss) : w.Nests (π.noting w) none Ss := by
  refine ⟨⟨h.absent, h.named, h.distinct, h.numbered, h.rooted,
    ⟨⟨h.routed.ages, h.routed.address, h.routed.closed, h.routed.gone⟩, h.routed.living, h.routed.mapped,
      h.routed.enrolled, h.routed.found⟩, clean_noting π w, fun id young i S _ s hs => ?_⟩,
    fun id s hs => ?_, h.runs⟩
  · exact absurd (h.numbered id s hs) (Nat.not_le_of_lt young)
  · obtain ⟨q, nested, holds, seated⟩ := h.lies id s hs
    have count : (w.parts id).length = w.activities.length := List.length_map _
    refine ⟨q, nested.note (fun i lt S eq => ?_) fun S eq _ u hu _ => ?_, holds, seated⟩
    · exact absurd (eq.trans count.symm) (Nat.ne_of_lt lt)
    · subst eq
      cases hs.symm.trans hu
      exact holds

/-! ## Steps in progress -/

/-- Whether a program takes a step in a turn that has ended after a later one: from then on more
activities were in progress, and now there are as many as before. -/
structure Spans (w₀ : World) (first last : Nat) : Prop where
  proceeds : (w₀.run first).control = .proceed
  begins : (w₀.run first).Begins
  later : first < last
  goes : ∀ i, first < i → i < last →
    (w₀.run first).activities.length < (w₀.run i).activities.length
  ended : (w₀.run last).activities.length = (w₀.run first).activities.length

/-- A step leaves below it what it lies on, which is nothing that a runtime waits for. -/
theorem covers_begins (rests : w.Rests) (proceeds : w.control = .proceed) (begins : w.Begins) :
    ∃ base, base.length = w.activities.length
      ∧ (∀ b ∈ base.head?, b.isEntered = false ∧ b.about? = none)
      ∧ Covers 0 base (advance.run w).2 := by
  obtain ⟨frame, step, steps, rest, top⟩ := begins
  have next : nextWhim.run w = (w.whims.headD .pass, { w with whims := w.whims.tail }) := rfl
  cases whim : w.whims.headD .pass with
  | upon id budget =>
    refine ⟨w.activities, rfl, fun b hb => ?_, ?_⟩
    · rw [top] at hb
      obtain rfl := Option.some.inj hb
      exact ⟨rfl, rfl⟩
    · rw [advance, stateM_get_bind, stateM_run_bind, next, proceeds, whim]
      exact covers_sweep budget _ (.of_eq rfl)
  | _ =>
    refine ⟨.program frame steps :: rest, by rw [top]; rfl, fun b hb => ?_, ?_⟩
    · obtain rfl := Option.some.inj hb
      exact ⟨rfl, rfl⟩
    · have calm : ∀ id budget, w.whims.headD .pass ≠ .upon id budget := fun _ _ eq => by
        cases whim.symm.trans eq
      rw [advance_proceed proceeds calm, proceed, stateM_get_bind]
      dsimp only
      rw [top]
      dsimp only
      rw [stateM_run_bind]
      exact covers_beginStep step _ ⟨rests, .of_eq rfl⟩

/-- Where more is in progress than lies below, what lies below stays. -/
theorem Covers.loose (h : w.Covers 0 base) (more : base.length < w.activities.length)
    (apart : ∀ b ∈ base.head?, b.isEntered = false) : w.Loose base := by
  obtain ⟨above, -, eq⟩ := h
  refine ⟨⟨above, ?_, eq⟩, .inr apart⟩
  have all := congrArg List.length eq
  rw [List.length_map, List.length_append, List.length_map] at all
  omega

/-- Where host code runs on what lay below, no runtime runs. -/
theorem Covers.idle {r : Option SessionId} (h : w.Covers 0 base) (nests : w.Nests π r Ss)
    (same : w.activities.length = base.length) (some : base ≠ [])
    (apart : ∀ b ∈ base.head?, b.about? = none) : r = none := by
  obtain ⟨above, -, eq⟩ := h
  have all := congrArg List.length eq
  rw [List.length_map, List.length_append, List.length_map] at all
  obtain rfl : above = [] := List.length_eq_zero_iff.mp (by omega)
  obtain ⟨b, more, rfl⟩ := List.exists_cons_of_ne_nil some
  obtain ⟨a, rest, top, shape, -⟩ := List.map_eq_cons_iff.mp eq
  cases r with
  | none => rfl
  | some id =>
    have waits := (nests.waits_top top id).mp rfl
    rw [← Activity.part_shape, shape, Activity.part_shape, Activity.part_of_none (apart b rfl)]
      at waits
    cases waits

/-- While a step is in progress, the sessions stand as the activities say, with the note that was
taken when it began, and what the step lies on is there. -/
theorem Spans.along {program : List Step} {whims : List Whim} {first last : Nat}
    (h : (World.start program whims).Spans first last) :
    let w := World.start program whims
    let π := (past program whims).noting (w.run first)
    ∃ base, base.length = (w.run first).activities.length
      ∧ (∀ b ∈ base.head?, b.isEntered = false ∧ b.about? = none)
      ∧ ∀ i, first < i → i ≤ last → (w.run i).Covers 0 base
        ∧ ∃ Ss, (w.run i).Nests π (w.run i).control.script? Ss := by
  intro w π
  obtain ⟨Ss₀, nests₀, -⟩ := nests_run program whims first
  have rests := nests₀.rests h.proceeds
  rw [h.proceeds] at nests₀
  obtain ⟨base, count, apart, begun⟩ := covers_begins rests h.proceeds h.begins
  have clean : π.Clean base.length := count ▸ clean_noting _ _
  have clear : ∀ w : World, w.Clear π := fun _ _ _ _ _ same => same
  have tells : ∀ i Ss, (w.run i).Nests π (w.run i).control.script? Ss →
      (w.run i).control = .proceed →
      (∀ id budget, (w.run i).whims.headD .pass ≠ .upon id budget) → (w.run i).Tells π :=
    fun i _ nests proceeds calm => tells_run rfl (books_run program whims i) nests proceeds calm
  refine ⟨base, count, apart, fun i before upto => ?_⟩
  -- the first turn begins the step, all others go on with what lies on the base
  induction i, before using Nat.le_induction with
  | base =>
    have noted : (w.run first).Nests π (w.run first).control.script? Ss₀ := by
      rw [h.proceeds]
      exact nests₀.noting
    obtain ⟨Ss, nests, -⟩ := turned_advance noted (.inr ⟨h.proceeds, h.begins⟩)
      (tells first Ss₀ noted) (clear _)
    rw [run_advance h.proceeds]
    exact ⟨begun, Ss, nests⟩
  | succ i before ih =>
    obtain ⟨covers, Ss, nests⟩ := ih (Nat.le_of_succ_le upto)
    obtain ⟨same, -⟩ | next := run_succ i w
    · rw [same]
      exact ⟨covers, Ss, nests⟩
    · have loose := covers.loose (count ▸ h.goes i before upto) fun b hb => (apart b hb).1
      obtain ⟨Ss', nests', -⟩ := turned_advance nests (.inl (.inr ⟨base, clean, loose⟩))
        (tells i Ss nests) (clear _)
      rw [next]
      exact ⟨covers_advance nests.rests loose, Ss', nests'⟩

/-- A step leaves all stacks at their level. -/
theorem Spans.level {program : List Step} {whims : List Whim} {first last : Nat}
    (h : (World.start program whims).Spans first last)
    (hs : ((World.start program whims).run first).sessions[id]? = some s) (ho : s.isOpen = true)
    (hs' : ((World.start program whims).run last).sessions[id]? = some s') (ho' : s'.isOpen = true) :
    s.Level s' := by
  obtain ⟨base, count, apart, along⟩ := h.along
  obtain ⟨covers, Ss, nests⟩ := along last h.later (Nat.le_refl last)
  have some : base ≠ [] := by
    obtain ⟨frame, step, steps, rest, top⟩ := h.begins
    rintro rfl
    rw [top] at count
    cases count
  have idle := covers.idle nests (h.ended.trans count.symm) some fun b hb => (apart b hb).2
  rw [idle] at nests
  obtain ⟨q, nested, holds, seated⟩ := nests.lies id s' hs'
  cases q with
  | seated S =>
    have noted := nested.noted_of_seated
    rw [World.parts, List.length_map] at noted
    exact Session.level_of_on (noted h.ended s hs ho) holds
  | under k S => cases seated
  | shut => exact absurd rfl (holds.isOpen.mp ho')

/-! ## Runtimes that come back with an error -/

/-- How many values were on the host's frame before what an activity waits for began. -/
def awaits? : Activity → Option Nat
  | .step _ (.executing _ base) | .step _ (.calling _ base ..) => some base
  | _ => none

/-- A runtime that has raised an error has left it on the host's frame, above all that was there. -/
theorem Nests.raised (h : w.Nests π (some id) Ss) {steps : Nat} {w₁ : World}
    (ran : (onSession id (Session.runMachine steps)).run w = (some .raised, w₁))
    (hs : w₁.sessions[id]? = some s) {a : Activity} {rest : List Activity} {base : Nat}
    (top : w.activities = a :: rest) (awaits : awaits? a = some base) :
    s.active = some s.machine.current
      ∧ ∃ error operands, s.machine.operandsOf s.machine.current = error :: operands
        ∧ operands.length = base := by
  obtain ⟨k, B, nested, mid⟩ := h.mid_script
  have after := mid.onSession (Session.leads_runMachine steps) (fun _ h => h.isOpen)
    fun _ _ h => h.1
  rw [ran] at after
  obtain ⟨u, hu, -, active, goes, pauses⟩ := after.session
  cases hs.symm.trans hu
  have mode := mode_of_pause pauses
  have part : a.part id = .runs base := by
    have waits := (h.waits_top top id).mp rfl
    have about : ∃ j, a.about? = some (j, .runs base) := by
      unfold awaits? at awaits
      split at awaits <;> cases awaits <;> exact ⟨_, rfl⟩
    obtain ⟨j, about⟩ := about
    by_cases here : id = j
    · exact Activity.part_self (here ▸ about)
    · rw [Activity.part_of_ne about here] at waits
      cases waits
  rw [World.parts, top, List.map_cons, part] at nested
  obtain lies | answers := goes
  · obtain came | ⟨target, came⟩ | came := lies.pause mode <;> cases came
  · obtain ⟨t, info, upvalue, operands, S, rfl, rfl, height⟩ := nested.runs_inv
    obtain ⟨new, idle, came | ⟨-, error, rfl⟩⟩ := answers.idle_call
    · cases mode.symm.trans came
    · obtain ⟨rfl, -⟩ := idle.top
      exact ⟨active, error, operands, idle.operandsOf, height⟩

/-! ## Host functions that return -/

/-- A host function returns with what is on its frame, which is handed to what called it. -/
theorem leads_results (d : Delivery) (previous : Option ThreadId) (vs : List Value)
    {info : FrameInfo} {upvalue : Script.Value} {operands : List Script.Value}
    {frames : List Script.Frame} (as : List Activity) (isOpen : s.isOpen = true)
    (hf : s.machine.frames = .host info upvalue operands :: frames) :
    Leads (fun w => w.activities.map Activity.shape = as
        ∧ ∃ u, w.sessions[d.session]? = some u ∧ s.Still u)
      (delivered d (.results previous vs)) fun _ w => w.activities.map Activity.shape = as
        ∧ w.control = .script d.session ∧ ∃ u, w.sessions[d.session]? = some u
          ∧ u.machine.current = s.machine.current ∧ u.machine.frames = frames
          ∧ u.machine.mode = .deliver operands.reverse := by
  -- letting go of cells and values leaves the runtime still
  have steady : Steady fun w => w.activities.map Activity.shape = as
      ∧ ∃ u, w.sessions[d.session]? = some u ∧ s.Still u := by
    rintro w w' ⟨shapes, u, hu, still⟩ calm
    obtain ⟨u', hu', still', -⟩ := calm.some hu
    exact ⟨calm.shapes.trans shapes, u', hu', still.trans still'⟩
  refine .bind (.of_preserves (calm_releaseOutbound steady _ _)) fun _ =>
    .bind (.of_preserves (calm_dropValues steady _)) fun _ => ?_
  rintro w ⟨shapes, u, hu, still⟩
  have left : (Session.leave previous).run u = ((), { u with active := previous }) :=
    congrArg (Prod.mk ()) (if_pos (still.isOpen.trans isOpen))
  rw [stateM_run_bind, onSession_run_some hu, left, stateM_run_bind,
    onSession_run_some (getElem?_withSession_self _ _ _)]
  refine ⟨shapes, rfl, _, getElem?_withSession_self _ _ _, ?_⟩
  change (Script.Machine.returnFromHost u.machine).current = _
    ∧ (Script.Machine.returnFromHost u.machine).frames = _
    ∧ (Script.Machine.returnFromHost u.machine).mode = _
  rw [Script.Machine.returnFromHost, still.machine.frames, hf]
  exact ⟨still.machine.current, rfl, rfl⟩

/-- A host function returns with as many values on its frame as there are results, and these are
handed to what called it. -/
theorem Nests.returns {d : Delivery} {previous : Option ThreadId} {vs : List Value}
    {rest : List Activity} (h : w.Nests π none Ss) (fits : ∀ a ∈ w.activities, a.Fits)
    (top : w.activities = .delivering d (.results previous vs) :: rest) (nothing : d.missing = 0) :
    ∃ s s' info upvalue operands frames, w.sessions[d.session]? = some s
      ∧ s.machine.frames = .host info upvalue operands :: frames ∧ operands.length = vs.length
      ∧ ((deliverNext d (.results previous vs)).run w).2.sessions[d.session]? = some s'
      ∧ s'.machine.frames = frames ∧ s'.machine.mode = .deliver operands.reverse := by
  obtain ⟨S, nested, mid⟩ := h.mid_top top rfl (part_delivering d).1
  rw [Errand.part, nothing] at nested
  generalize thread : d.thread = t at nested
  generalize Ss d.session = callers at nested
  obtain ⟨carries, -⟩ := fits _ (top ▸ List.mem_cons_self)
  cases nested with
  | @answers _ _ info upvalue operands S B k callers _ _ _ _ deep ground count _ _ =>
    obtain ⟨s, hs, on⟩ := mid.session
    obtain ⟨-, frames, -, hf, -, -⟩ := on.idle.top
    have pin : d.pin = none := by
      cases hp : d.pin with
      | none => rfl
      | some pin => rw [Delivery.missing, hp] at nothing; simp at nothing
    have left : d.left = [] := by
      rw [Delivery.missing, pin] at nothing
      exact List.length_eq_zero_iff.mp nothing
    obtain ⟨-, -, s', hs', -, after⟩ := leads_results d (some B.thread) vs _
      on.isOpen hf (finishTop.run w).2 ⟨rfl, s, hs, .refl s⟩
    refine ⟨s, s', info, upvalue, operands, frames, hs, hf, count.trans carries.length_eq, ?_, after⟩
    rw [deliverNext, pin, left]
    exact hs'

end World

/-! ## Any run -/

/-- At any point of any run: wherever host code runs, the operations of the host leave the stack at
the height at which they found it, with all that was on it, whether they fail or not; a step that
begins leaves all stacks at their level when it has ended, whatever was called in between; a host
function returns with as many values on its frame as there are results; and a runtime that has raised
an error has left it, alone, above all that was on the host's frame. -/
theorem levels_run (program : List Step) (whims : List Whim) (n : Nat) :
    let w := World.start program whims
    (∀ (s : Session) (t : ThreadId), s.Rests → s.active = some t → s.Balanced t)
    ∧ (∀ (id : SessionId) (s : Session), (w.run n).control.script? = none →
      (w.run n).sessions[id]? = some s → s.isOpen = true → s.Rests)
    ∧ (∀ (last : Nat) (id : SessionId) (s s' : Session), w.Spans n last →
      (w.run n).sessions[id]? = some s → s.isOpen = true →
      (w.run last).sessions[id]? = some s' → s'.isOpen = true → s.Level s')
    ∧ (∀ (d : Delivery) (previous : Option ThreadId) (vs : List Value) (rest : List Activity),
      (w.run n).control = .proceed → w.Undisturbed n 1 →
      (w.run n).activities = .delivering d (.results previous vs) :: rest → d.missing = 0 →
      ∃ s s' info upvalue operands frames, (w.run n).sessions[d.session]? = some s
        ∧ s.machine.frames = .host info upvalue operands :: frames ∧ operands.length = vs.length
        ∧ (w.run (n + 1)).sessions[d.session]? = some s' ∧ s'.machine.frames = frames
        ∧ s'.machine.mode = .deliver operands.reverse)
    ∧ ∀ (id : SessionId) (steps : Nat) (w₁ : World) (s : Session) (a : Activity)
      (rest : List Activity) (base : Nat), (w.run n).control = .script id →
      (World.onSession id (Session.runMachine steps)).run (w.run n) = (some .raised, w₁) →
      w₁.sessions[id]? = some s → (w.run n).activities = a :: rest →
      World.awaits? a = some base → s.active = some s.machine.current
        ∧ ∃ error operands, s.machine.operandsOf s.machine.current = error :: operands
          ∧ operands.length = base := by
  intro w
  obtain ⟨Ss, nests, -⟩ := World.nests_run program whims n
  refine ⟨fun s t rests active => rests.balanced active, fun id s control hs ho => ?_,
    fun last id s s' spans hs ho hs' ho' => spans.level hs ho hs' ho',
    fun d previous vs rest proceeds calm top nothing => ?_,
    fun id steps w₁ s a rest base control ran hs top awaits => ?_⟩
  · rw [control] at nests
    obtain ⟨S, -, mid⟩ := nests.mid hs ho
    obtain ⟨u, hu, on⟩ := mid.session
    cases hs.symm.trans hu
    obtain ⟨info, upvalue, operands, S, rfl⟩ := on.idle.cons
    exact on.rests
  · rw [proceeds] at nests
    have fits := (World.books_run program whims n).1.fits
    have nests' : World.Nests (World.past program whims) none Ss
        { w.run n with whims := (w.run n).whims.tail } :=
      World.steady_nests _ _ _ _ _ nests (.aside rfl rfl rfl rfl rfl rfl rfl rfl)
    have returned := nests'.returns fits top nothing
    rw [World.run_proceed proceeds calm,
      World.proceed_delivering (w := { w.run n with whims := (w.run n).whims.tail }) top]
    exact returned
  · rw [show ((World.start program whims).run n).control = _ from control] at nests
    exact nests.raised ran hs top awaits

/-- Whether a program takes its next step in the next turn. -/
def World.begins? (w : World) : Bool :=
  match w.control, w.activities with
  | .proceed, .program _ (_ :: _) :: _ => true
  | _, _ => false

theorem World.of_begins {w : World} (h : w.begins? = true) : w.control = .proceed ∧ w.Begins := by
  unfold begins? at h
  split at h
  · rename_i control top
    exact ⟨control, _, _, _, _, top⟩
  · cases h

/-- What a host function hands over in the next turn, if all of it is on its frame. -/
def World.returning? (w : World) : Option (Delivery × List Value) :=
  match w.control, w.activities with
  | .proceed, .delivering d (.results _ vs) :: _ => if d.missing = 0 then some (d, vs) else none
  | _, _ => none

theorem World.of_returning {w : World} {d : Delivery} {vs : List Value}
    (h : w.returning? = some (d, vs)) : w.control = .proceed ∧ d.missing = 0
      ∧ ∃ previous rest, w.activities = .delivering d (.results previous vs) :: rest := by
  unfold returning? at h
  split at h
  · rename_i d' previous vs' rest control top
    split at h
    · rename_i nothing
      cases h
      exact ⟨control, nothing, previous, rest, top⟩
    · cases h
  · cases h

/-- Calls a host function, which runs a snippet that raises an error, and has two results. -/
def levelling : List Step := [
  .mk (.openSession "a" .standard) true true,
  .mk (.register "a" "h" (.mk "h" [.mk (.execute "a" "error()") true true]
    [.one (.constant (.boolean true)), .nils 1] [] false true)) true true,
  .mk (.execute "a" "h()") true true]

theorem levels_run_levelling :
    let w := World.start levelling []
    (∃ s s', w.Spans 7 9 ∧ (w.run 7).sessions[1]? = some s ∧ (w.run 9).sessions[1]? = some s'
      ∧ s.Level s')
    ∧ (∃ s s' info upvalue operands frames, (w.run 12).sessions[1]? = some s
      ∧ s.machine.frames = .host info upvalue operands :: frames ∧ operands.length = 2
      ∧ (w.run 13).sessions[1]? = some s' ∧ s'.machine.mode = .deliver operands.reverse)
    ∧ ∃ w₁ s error, (World.onSession 1 (Session.runMachine World.slice)).run (w.run 8)
        = (some .raised, w₁)
      ∧ w₁.sessions[1]? = some s ∧ s.machine.operandsOf s.machine.current = [error] := by
  intro w
  refine ⟨?_, ?_, ?_⟩
  · have before : (w.run 7).begins? = true := by decide +kernel
    have between : (w.run 7).activities.length < (w.run 8).activities.length := by decide +kernel
    have after : (w.run 9).activities.length = (w.run 7).activities.length := by decide +kernel
    have there : (w.run 7).sessions[1]?.any (·.isOpen) = true := by decide +kernel
    have there' : (w.run 9).sessions[1]?.any (·.isOpen) = true := by decide +kernel
    obtain ⟨proceeds, begins⟩ := World.of_begins before
    obtain ⟨s, hs, ho⟩ := (Option.any_eq_true _ _).mp there
    obtain ⟨s', hs', ho'⟩ := (Option.any_eq_true _ _).mp there'
    have spans : w.Spans 7 9 := ⟨proceeds, begins, by decide, fun i lower upper => by
      obtain rfl : i = 8 := by omega
      exact between, after⟩
    obtain ⟨-, -, level, -⟩ := levels_run levelling [] 7
    exact ⟨s, s', spans, hs, hs', level 9 1 s s' spans hs ho hs' ho'⟩
  · have returns : (w.run 12).returning?.any (fun (d, vs) => d.session == 1 && vs.length == 2)
        = true := by decide +kernel
    obtain ⟨⟨d, vs⟩, returning, same⟩ := (Option.any_eq_true _ _).mp returns
    obtain ⟨proceeds, nothing, previous, rest, top⟩ := World.of_returning returning
    obtain ⟨session, two⟩ := Bool.and_eq_true_iff.mp same
    have calm : w.Undisturbed 12 1 := World.Undisturbed.of_isEmpty fun i hi => by
      obtain rfl : i = 0 := by omega
      decide +kernel
    obtain ⟨-, -, -, returned, -⟩ := levels_run levelling [] 12
    obtain ⟨s, s', info, upvalue, operands, frames, hs, hf, count, hs', -, mode⟩ :=
      returned d previous vs rest proceeds calm top nothing
    rw [eq_of_beq session] at hs hs'
    exact ⟨s, s', info, upvalue, operands, frames, hs, hf, count.trans (eq_of_beq two), hs', mode⟩
  · have control : (w.run 8).control = .script 1 := by
      have scripts : (w.run 8).control.script? = some 1 := by decide +kernel
      cases control : (w.run 8).control with
      | script j =>
        rw [control] at scripts
        rw [Option.some.inj scripts]
      | _ => rw [control] at scripts; cases scripts
    have raises : ((World.onSession 1 (Session.runMachine World.slice)).run (w.run 8)).1
        = some .raised := by decide +kernel
    have awaits : (w.run 8).activities.head?.bind World.awaits? = some 0 := by decide +kernel
    have there : ((World.onSession 1
        (Session.runMachine World.slice)).run (w.run 8)).2.sessions[1]?.isSome = true := by
      decide +kernel
    generalize ran : (World.onSession 1 (Session.runMachine World.slice)).run (w.run 8) = r
      at raises there
    obtain ⟨pause, w₁⟩ := r
    obtain rfl : pause = _ := raises
    obtain ⟨s, hs⟩ := Option.isSome_iff_exists.mp there
    obtain ⟨a, top, base⟩ := Option.bind_eq_some_iff.mp awaits
    obtain ⟨rest, top⟩ := List.head?_eq_some_iff.mp top
    obtain ⟨-, -, -, -, raised⟩ := levels_run levelling [] 8
    obtain ⟨-, error, operands, own, empty⟩ := raised 1 World.slice w₁ s a rest 0 control ran hs top base
    obtain rfl := List.length_eq_zero_iff.mp empty
    exact ⟨w₁, s, error, rfl, hs, own⟩

end Host

end ScriptBridge

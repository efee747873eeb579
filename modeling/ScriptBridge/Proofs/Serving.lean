import ScriptBridge.Proofs.Calling
import ScriptBridge.Proofs.Levels

/-!
# ScriptBridge.Proofs.Serving

A call of a host callable that a script makes.  The body of the callable is entered, and runs until
it is left (`Dispatch.Serving`); then its results are put on the frame of the host function
(`Dispatch.Answering`), and the script gets all of them (`Dispatch.Gets`), or it gets one error and
nothing else (`Dispatch.Fails`).  Whatever runs in between, the host function lies on the frames on
which it was called (`Dispatch.Stands`).

Main facts:

* `Dispatch.Stands.turn` — a turn that leaves the call in progress leaves it where it is;
* `Dispatch.serving_turn` — one turn of a call whose body runs;
* `Dispatch.leaves_fails`, `Dispatch.leaves_answers` — what comes of a body that is left;
* `Dispatch.answering_turn` — one turn of a call whose results are on their way.
-/

namespace ScriptBridge

open Script (Spine FrameInfo ThreadId)

namespace Host

/-- A call of a host callable that a script makes: where the host function was called, with the
frames that it lies on, and the activities that the call lies on. -/
structure Dispatch where
  session : SessionId
  thread : ThreadId
  info : FrameInfo
  upvalue : Script.Value
  frames : List Script.Frame
  previous : Option ThreadId
  callable : CallableId
  rest : List Activity

/-- Why the call of a host function comes to an error when its body is left; what is looked at first
comes first. -/
inductive Spurns (s : Session) : Ending → Failure → Prop
  | failed (f : Failure) : Spurns s (.failed f) f
  | panicked (text : Option String) :
      Spurns s (.panicked text) (.panicked (text.getD World.unknownPanic))
  | full {t : ThreadId} {vs : List Value} : s.active = some t →
      ¬ (s.machine.reserve t vs.length).1 →
      Spurns s (.returned vs) (.runtime (.stackFull vs.length))
  | foreign {t : ThreadId} {us vs : List Value} {v : Value} {r : Ref} : s.active = some t →
      (s.machine.reserve t (us ++ v :: vs).length).1 → (∀ u ∈ us, s.Owns u) → v.ref? = some r →
      r.session ≠ s.id →
      Spurns s (.returned (us ++ v :: vs)) ((Failure.wrongSession s.id r.session).ofItem us.length)

namespace World

variable {w u : World} {e : Ending}

/-- Whether the body on top is left in the next turn, and how; its results are made before. -/
inductive Leaves (w : World) : Ending → World → Prop
  | ended {f : Frame} {rest : List Activity} {e : Ending} {u : World} : w.control = .proceed →
      (∀ id budget, w.whims.headD .pass ≠ .upon id budget) →
      w.activities = .program (some f) [] :: rest →
      (bodyResults f).run { w with whims := w.whims.tail } = (e, u) → Leaves w e u
  | broken {e : Ending} : w.control = .leave e → Leaves w e { w with whims := w.whims.tail }

theorem Leaves.turn (h : w.Leaves e u) : advance.run w = (leaveBody e).run u := by
  cases h with
  | ended control calm top made =>
    have leaves := proceed_leaves (w := { w with whims := w.whims.tail }) top
    rw [advance_proceed control calm, leaves, stateM_run_bind, made]
  | broken control =>
    have whim : nextWhim.run w = (w.whims.headD .pass, { w with whims := w.whims.tail }) := rfl
    rw [advance, stateM_get_bind, stateM_run_bind, whim, control]

/-- No runtime runs while a body is left. -/
theorem Leaves.idle (h : w.Leaves e u) : w.control.script? = none := by
  cases h with
  | ended control => rw [control]; rfl
  | broken control => rw [control]; rfl

theorem Leaves.not_done (h : w.Leaves e u) : w.control ≠ .done := by
  cases h with
  | ended control | broken control => rw [control]; nofun

/-- Values that stand as they did may be looked at when the body is left. -/
theorem Leaves.steady {I : World → Prop} (steady : Steady I) (rests : ∀ w, I w → w.Rests)
    (h : w.Leaves e u) (before : I w) : I u := by
  have next : I { w with whims := w.whims.tail } :=
    steady _ _ before (.aside rfl rfl rfl rfl rfl rfl rfl rfl)
  cases h with
  | @ended f _ _ _ _ _ _ made =>
    have after := preserves_bodyResults steady rests f _ next
    rwa [made] at after
  | broken => exact next

/-- The results that are made are held. -/
theorem Leaves.books {μ : SessionId → Session.Memory} (h : w.Leaves e u) (hw : Books μ 0 w) :
    Books μ (valueHoldings e.values + 0) u := by
  have next : Books μ 0 { w with whims := w.whims.tail } := ⟨{ hw.1 with }, hw.2⟩
  cases h with
  | @ended f _ _ _ _ _ _ made =>
    have kept := keeps_bodyResults f { w with whims := w.whims.tail } μ 0 (by rwa [zero_add])
    rwa [made] at kept
  | broken control => rwa [hw.1.bare e control, valueHoldings_nil, zero_add]

/-- Leaves a host function with a failure as the error. -/
def refuse (id : SessionId) (previous : Option ThreadId) (f : Failure) : Act Unit := do
  onSession id (Session.leave previous)
  onSession id (Session.raiseFailure f)
  setControl (.script id)

/-- Answers a runtime that has called a callable, when its body has been left. -/
def answer (id : SessionId) (previous : Option ThreadId) : Ending → Act Unit
  | .returned vs => do
    match ← attemptOn id (Session.beginResults vs) with
    | .ok (t, outs) =>
      retainAll (callablesOf vs)
      beginDelivery id t outs (.results previous vs)
    | .error f =>
      dropValues vs
      refuse id previous f
  | .failed f => refuse id previous f
  | .panicked text => refuse id previous (.panicked (text.getD unknownPanic))

/-- The results cannot be put on the frame: the script gets an error in their place. -/
theorem answer_refused {id : SessionId} {s s' : Session} {vs : List Value} {f : Failure}
    (previous : Option ThreadId) (hs : w.sessions[id]? = some s)
    (run : (Session.beginResults vs).run.run s = (.error f, s')) :
    (answer id previous (.returned vs)).run w
      = (refuse id previous f).run ((dropValues vs).run (w.withSession id s')).2 := by
  rw [answer, stateM_run_bind, attemptOn, onSession_run_some hs, run]
  rfl

/-- The results can be put on the frame: they are made ready, and their delivery begins. -/
theorem answer_ready {id : SessionId} {s s' : Session} {vs : List Value} {t : ThreadId}
    {outs : List Session.Outbound} (previous : Option ThreadId) (hs : w.sessions[id]? = some s)
    (run : (Session.beginResults vs).run.run s = (.ok (t, outs), s')) :
    (answer id previous (.returned vs)).run w
      = (beginDelivery id t outs (.results previous vs)).run
          ((retainAll (callablesOf vs)).run (w.withSession id s')).2 := by
  rw [answer, stateM_run_bind, attemptOn, onSession_run_some hs, run]
  rfl

theorem answerScript_eq (id : SessionId) (previous : Option ThreadId) (callable : CallableId)
    (e : Ending) : answerScript id previous callable e
      = release [.callable callable] >>= fun _ => answer id previous e := by
  cases e <;> rfl

/-- A body that a runtime called is left, and then the runtime is answered. -/
theorem leaveBody_serving {g : Frame} {more : List Step} {rest : List Activity} {id : SessionId}
    {previous : Option ThreadId} {callable : CallableId} (e : Ending)
    (serves : w.activities = .program (some g) more :: .serving id previous callable :: rest) :
    (leaveBody e).run w = (answer id previous e).run (w.answering g callable) := by
  have here : ((setControl .proceed).run w).2.activities
      = .program (some g) more :: .serving id previous callable :: rest := serves
  unfold leaveBody
  rw [stateM_run_bind, stateM_get_bind, here]
  simp only
  rw [stateM_run_bind, stateM_run_bind, stateM_run_bind, answerScript_eq, stateM_run_bind,
    ← answering_eq]

end World

namespace Dispatch

variable {d : Dispatch} {w u : World} {π : Past} {Ss : SessionId → List Spine} {S : Spine}
  {s : Session} {μ : SessionId → Session.Memory} {e : Ending} {vs : List Value}

/-! ## The states of a call -/

/-- The spine on which a host function was called. -/
def Caller (d : Dispatch) (S : Spine) : Prop :=
  ∃ T : Spine, S = (d.thread, .host d.info d.upvalue []) :: (d.frames.map (d.thread, ·) ++ T)
    ∧ ∀ p ∈ T, p.1 ≠ d.thread

/-- Whether the sessions stand as the activities say, and the host function on the spine on which it
was called. -/
def Stands (d : Dispatch) (π : Past) (w : World) : Prop :=
  ∃ (Ss : SessionId → List Spine) (S : Spine) (callers : List Spine),
    w.Nests π w.control.script? Ss ∧ d.Caller S ∧ S :: callers <:+ Ss d.session
    ∧ callers.length = d.rest.countP (Activity.callsFrom d.session)

/-- The body of the callable with what is left of it, and what it lies on. -/
def body (d : Dispatch) (steps : List Step) : List Activity :=
  .program (some ⟨d.callable, ∅⟩) steps :: .serving d.session d.previous d.callable :: d.rest

/-- Whether the body of the callable is in progress. -/
def Serving (d : Dispatch) (w : World) : Prop := ∃ steps, w.Covers 0 (d.body steps)

/-- The delivery of results. -/
def answers (d : Dispatch) (vs : List Value) (outs left : List Session.Outbound)
    (pin : Option Handle) : Activity :=
  .delivering ⟨d.session, d.thread, outs, left, pin⟩ (.results d.previous vs)

/-- Whether the results are being put on the frame of the host function. -/
def Answering (d : Dispatch) (vs : List Value) (w : World) : Prop :=
  ∃ outs left pin, w.Covers 0 (d.answers vs outs left pin :: d.rest)

/-- Whether the script goes on, with nothing left of the call in the host. -/
structure Over (d : Dispatch) (w : World) : Prop where
  control : w.control = .script d.session
  rest : w.activities.map Activity.shape = d.rest.map Activity.shape

/-- Whether the script gets one error, the text of a failure, in place of all results: nothing else
is on the frame of the host function. -/
def Fails (d : Dispatch) (f : Failure) (w : World) : Prop :=
  d.Over w ∧ ∃ (s : Session) (m : Script.Machine), w.sessions[d.session]? = some s
    ∧ m.current = d.thread
    ∧ m.frames = .host d.info d.upvalue [.str f.message.toUTF8] :: d.frames
    ∧ s.machine = m.raise (.str f.message.toUTF8)

/-- Whether the script gets values as the results of the host function. -/
def Gets (d : Dispatch) (xs : List Script.Value) (w : World) : Prop :=
  d.Over w ∧ ∃ s : Session, w.sessions[d.session]? = some s ∧ s.machine.current = d.thread
    ∧ s.machine.frames = d.frames ∧ s.machine.mode = .deliver xs

/-- Whether the body is left in the next turn, and how. -/
def Leaves (d : Dispatch) (w : World) (e : Ending) (g : Frame) (u : World) : Prop :=
  w.Leaves e u ∧ g.callable = d.callable ∧ ∃ more rest,
    u.activities = .program (some g) more :: .serving d.session d.previous d.callable :: rest
    ∧ rest.map Activity.shape = d.rest.map Activity.shape

/-! ## Where a call stands -/

theorem countP_shape (id : SessionId) (as : List Activity) :
    (as.map Activity.shape).countP (Activity.callsFrom id) = as.countP (Activity.callsFrom id) := by
  rw [List.countP_map]
  refine List.countP_congr fun a _ => ?_
  rw [Function.comp_apply, Activity.callsFrom_eq, Activity.part_shape, ← Activity.callsFrom_eq]

/-- What a call lies on is in progress, and the call with it. -/
theorem lt_calls {a : Activity} (calls : a.callsFrom d.session = true) {as : List Activity}
    (above : as <:+ w.activities.map Activity.shape)
    (eq : as = a.shape :: d.rest.map Activity.shape) :
    d.rest.countP (Activity.callsFrom d.session) < w.calls d.session := by
  have shape : a.shape.callsFrom d.session = true := by
    rw [Activity.callsFrom_eq, Activity.part_shape, ← Activity.callsFrom_eq, calls]
  have fewer := above.sublist.countP_le (p := Activity.callsFrom d.session)
  rw [eq, List.countP_cons_of_pos shape, countP_shape, countP_shape] at fewer
  exact fewer

/-- A turn that leaves a call in progress leaves it where it is. -/
theorem Stands.turn (h : d.Stands π w) (free : ∀ id i S, π.noted id i S)
    (tells : w.control = .proceed → (∀ id budget, w.whims.headD .pass ≠ .upon id budget) →
      w.Tells π)
    (clear : World.Clear π (World.advance.run w).2)
    (calls : d.rest.countP (Activity.callsFrom d.session)
      < World.calls (World.advance.run w).2 d.session) :
    d.Stands π (World.advance.run w).2 := by
  obtain ⟨Ss, S, callers, nests, caller, suffix, count⟩ := h
  obtain ⟨Ss', nests', shift⟩ := World.turned_advance nests
    (.inl (.inl fun id i S _ => free id i S)) tells clear
  refine ⟨Ss', S, callers, nests', caller, ?_, count⟩
  have length := nests'.calls d.session
  have shift := shift d.session
  generalize Ss d.session = before at shift suffix
  generalize Ss' d.session = after at shift length
  cases shift with
  | same => exact suffix
  | entered => exact suffix.trans (List.suffix_cons _ _)
  | left =>
    obtain eq | inner := List.suffix_cons_iff.mp suffix
    · obtain ⟨-, rfl⟩ := List.cons.inj eq
      omega
    · exact inner

/-- Where a call is innermost among those of its session, its spine is the innermost. -/
theorem Stands.innermost (h : d.Stands π w)
    (calls : w.calls d.session = d.rest.countP (Activity.callsFrom d.session) + 1) :
    ∃ (Ss : SessionId → List Spine) (S : Spine) (callers : List Spine),
      w.Nests π w.control.script? Ss ∧ d.Caller S ∧ Ss d.session = S :: callers := by
  obtain ⟨Ss, S, callers, nests, caller, suffix, count⟩ := h
  refine ⟨Ss, S, callers, nests, caller, (suffix.eq_of_length ?_).symm⟩
  rw [nests.calls, calls, List.length_cons, count]

/-- The host's frame lies on the frames on which the host function was called. -/
theorem Caller.frames (h : d.Caller S) {t t' : ThreadId} {info : FrameInfo}
    {upvalue : Script.Value} {operands : List Script.Value} {S' : Spine}
    (same : S = (t, .host info upvalue []) :: S')
    (on : Session.On t' ((t, .host info upvalue operands) :: S') s) :
    s.machine.current = d.thread
      ∧ s.machine.frames = .host d.info d.upvalue operands :: d.frames := by
  obtain ⟨T, rfl, apart⟩ := h
  obtain ⟨top, rfl⟩ := List.cons.inj same
  obtain ⟨rfl, frame⟩ := Prod.mk.inj top
  cases frame
  obtain ⟨current, rest, T', frames, stacked, split⟩ := on.idle.top
  have apart' := stacked.waits.fresh
  rw [current] at split apart'
  obtain ⟨rfl, -⟩ := Script.Spine.split_eq apart apart' split
  exact ⟨current, frames⟩

/-- A host function is left with a failure. -/
theorem refuse_fails (hs : u.sessions[d.session]? = some s) (ho : s.isOpen)
    (current : s.machine.current = d.thread)
    (frames : s.machine.frames = .host d.info d.upvalue [] :: d.frames)
    (rest : u.activities.map Activity.shape = d.rest.map Activity.shape) (f : Failure) :
    d.Fails f ((World.refuse d.session d.previous f).run u).2 := by
  have left : (Session.leave d.previous).run s = ((), { s with active := d.previous }) :=
    congrArg (Prod.mk ()) (if_pos ho)
  let m : Script.Machine := { s.machine with
    frames := .host d.info d.upvalue [.str f.message.toUTF8] :: d.frames }
  have raised : (Session.raiseFailure f).run { s with active := d.previous }
      = ((), { s with active := d.previous, machine := m.raise (.str f.message.toUTF8) }) := by
    change ((), ({ s with
      active := d.previous
      machine := (s.machine.setOperands s.machine.current [.str f.message.toUTF8]).failFromHost } :
        Session)) = _
    rw [Script.Machine.setOperands_current frames]
    rfl
  have run : ((World.refuse d.session d.previous f).run u).2
      = { (u.withSession d.session { s with active := d.previous }).withSession d.session
          { s with active := d.previous, machine := m.raise (.str f.message.toUTF8) } with
        control := .script d.session } := by
    rw [World.refuse, stateM_run_bind, World.onSession_run_some hs, left, stateM_run_bind,
      World.onSession_run_some (World.getElem?_withSession_self ..), raised]
    rfl
  rw [run]
  exact ⟨⟨rfl, rest⟩, _, m, World.getElem?_withSession_self .., current, rfl, rfl⟩

theorem Caller.refuse {t t' : ThreadId} {info : FrameInfo} {upvalue : Script.Value} {S' : Spine}
    (h : d.Caller ((t, .host info upvalue []) :: S')) (hs : u.sessions[d.session]? = some s)
    (on : Session.On t' ((t, .host info upvalue []) :: S') s)
    (rest : u.activities.map Activity.shape = d.rest.map Activity.shape) (f : Failure) :
    d.Fails f ((World.refuse d.session d.previous f).run u).2 := by
  obtain ⟨current, frames⟩ := h.frames rfl on
  exact refuse_fails hs on.isOpen current frames rest f

/-! ## A body that is left -/

/-- When a body is left, the host function is where it was called, with nothing on its frame. -/
theorem Stands.answering {g : Frame} (h : d.Stands π w) (free : ∀ id i S, π.noted id i S)
    (leaves : d.Leaves w e g u) :
    ∃ (s : Session) (t : ThreadId) (info : FrameInfo) (upvalue : Script.Value) (S : Spine),
      (u.answering g d.callable).sessions[d.session]? = some s
      ∧ d.Caller ((t, .host info upvalue []) :: S)
      ∧ Session.On t ((t, .host info upvalue []) :: S) s
      ∧ (u.answering g d.callable).activities.map Activity.shape = d.rest.map Activity.shape := by
  obtain ⟨leaves, -, more, rest, top, same⟩ := leaves
  have clean : ∀ count, π.Clean count := fun _ id i S _ => free id i S
  obtain ⟨Ss₀, -, -, nests₀, -⟩ := id h
  rw [leaves.idle] at nests₀
  have shapes := leaves.steady
    (I := fun v => World.Nests π none Ss₀ v
      ∧ v.activities.map Activity.shape = w.activities.map Activity.shape)
    (fun v v' hv calm => ⟨World.steady_nests π none Ss₀ v v' hv.1 calm, calm.shapes.trans hv.2⟩)
    (fun v hv => World.rests_of_nests hv.1) ⟨nests₀, rfl⟩
  have count : w.calls d.session = d.rest.countP (Activity.callsFrom d.session) + 1 := by
    rw [World.calls, ← countP_shape, ← shapes.2, countP_shape, top,
      List.countP_cons_of_neg (by simp [Activity.callsFrom]),
      List.countP_cons_of_pos (by simp [Activity.callsFrom]), ← countP_shape, same, countP_shape]
  obtain ⟨Ss, S, callers, nests, caller, eq⟩ := h.innermost count
  rw [leaves.idle] at nests
  have nests := leaves.steady (World.steady_nests π none Ss) (fun _ => World.rests_of_nests) nests
  let u₁ : World := (World.finishTop.run ((World.setControl .proceed).run u).2).2
  let lets : Act Unit := do
    World.finishTop
    World.dropSlots g.slots
    World.release [.callable d.callable]
  have top₁ : u₁.activities = .serving d.session d.previous d.callable :: rest := by
    change u.activities.drop 1 = _
    rw [top]
    rfl
  have nests₁ : World.Nests π none Ss u₁ :=
    World.nests_pop (World.nests_control nests .proceed) top rfl (clean _)
  have ran : (lets.run u₁).2 = u.answering g d.callable := rfl
  have below : Leads (fun v => v.activities = .serving d.session d.previous d.callable :: rest)
      lets fun _ v => v.activities.map Activity.shape = d.rest.map Activity.shape := by
    have steady : World.Steady fun v => v.activities.map Activity.shape = d.rest.map Activity.shape :=
      fun v v' hv calm => calm.shapes.trans hv
    refine .bind (fun v hv => ?_) fun _ => .bind (.of_preserves (World.calm_dropSlots steady _))
      fun _ => .of_preserves (World.calm_release steady _)
    rw [World.finishTop_run]
    exact (congrArg (fun as => (as.drop 1).map Activity.shape) hv).trans same
  obtain ⟨S', nested, mid⟩ := nests₁.mid_top top₁ rfl (by simp)
  generalize rest.map (Activity.part d.session) = ps at nested mid
  rw [eq] at nested
  generalize d.previous = previous at nested mid
  cases nested with
  | @serves _ t info upvalue S B k callers _ deep ground =>
    have left : Leads (World.Mid π d.session (.serves (some B.thread) :: ps)
        (Session.On t ((t, .host info upvalue []) :: S)) Ss) lets fun _ =>
          World.Mid π d.session ps (Session.On t ((t, .host info upvalue []) :: S)) Ss :=
      .bind (World.leads_finishTop (by simp) (clean _)) fun _ =>
        .bind (World.leads_still fun J hJ => World.calm_dropSlots hJ _) fun _ =>
          World.leads_still fun J hJ => World.calm_release hJ _
    obtain ⟨s, hs, on⟩ := (left u₁ mid).session
    exact ⟨s, t, info, upvalue, S, ran ▸ hs, caller, on, ran ▸ below u₁ top₁⟩

/-- A body that is left for a reason to fail: the script gets one error. -/
theorem leaves_fails {g : Frame} {f : Failure} (h : d.Stands π w) (free : ∀ id i S, π.noted id i S)
    (hw : World.Books μ 0 w) (leaves : d.Leaves w e g u)
    (hs : (u.answering g d.callable).sessions[d.session]? = some s) (spurns : Spurns s e f) :
    d.Fails f (World.advance.run w).2 := by
  obtain ⟨s', t, info, upvalue, S, hs', caller, on, rest⟩ := h.answering free leaves
  cases hs.symm.trans hs'
  obtain ⟨left, -, more, below, top, -⟩ := leaves
  have books := (left.books hw).answering top
  rw [left.turn, World.leaveBody_serving e top]
  generalize u.answering g d.callable = v at *
  have refused : ∀ (vs : List Value) (s' : Session),
      (Session.beginResults vs).run.run s = (.error f, s') →
      d.Fails f ((World.answer d.session d.previous (.returned vs)).run v).2 := by
    intro vs s' run
    have on' := Session.leads_beginResults vs s on
    rw [run] at on'
    let I : World → Prop := fun v => v.activities.map Activity.shape = d.rest.map Activity.shape
      ∧ ∃ s : Session, v.sessions[d.session]? = some s
        ∧ Session.On t ((t, .host info upvalue []) :: S) s
    have steady : World.Steady I := fun v v' ⟨below, s, hs, on⟩ calm => by
      obtain ⟨s', hs', still, -⟩ := calm.some hs
      exact ⟨calm.shapes.trans below, s', hs', Session.steady_on _ _ s s' on still⟩
    have dropped : I ((World.dropValues vs).run (v.withSession d.session s')).2 :=
      World.calm_dropValues steady vs _ ⟨rest, s', World.getElem?_withSession_self .., on'⟩
    obtain ⟨below, s'', hs'', on''⟩ := dropped
    rw [World.answer_refused d.previous hs run]
    exact caller.refuse hs'' on'' below f
  cases spurns with
  | failed => exact caller.refuse hs on rest _
  | panicked => exact caller.refuse hs on rest _
  | @full t' vs active none =>
    have awake : Session.thread.run.run s = (.ok t', s) := by rw [Session.thread_run, active]; rfl
    have full := Session.reserve_run t' vs.length s
    rw [if_neg none] at full
    exact refused _ _ (by rw [Session.beginResults, try_bind_ok awake, try_bind_error full])
  | @foreign t' us vs v r active room own hv other =>
    have awake : Session.thread.run.run s = (.ok t', s) := by rw [Session.thread_run, active]; rfl
    have reserved := Session.reserve_run t' (us ++ v :: vs).length s
    rw [if_pos room, Script.Machine.reserve_of_room room] at reserved
    obtain ⟨-, -, orderly⟩ := books.orderly_at hs (by rw [active]; rfl)
    obtain ⟨s', packed, -⟩ := Session.packAll_foreign orderly vs own hv other
    exact refused _ _ (by
      rw [Session.beginResults, try_bind_ok awake, try_bind_ok reserved, try_bind_error packed])

/-- A body that is left with results that the script can get: they are put on the frame of the host
function. -/
theorem leaves_answers {g : Frame} (h : d.Stands π w) (free : ∀ id i S, π.noted id i S)
    (hw : World.Books μ 0 w) (leaves : d.Leaves w e g u)
    (hs : (u.answering g d.callable).sessions[d.session]? = some s)
    (accepts : ∀ f, ¬ Spurns s e f) :
    ∃ vs s', e = .returned vs ∧ d.Answering vs (World.advance.run w).2
      ∧ (World.advance.run w).2.sessions[d.session]? = some s' ∧ s'.isOpen ∧ s.Grows s'
      ∧ ∀ v ∈ vs, s.Owns v := by
  obtain ⟨s', t, info, upvalue, S, hs', caller, on, rest⟩ := h.answering free leaves
  cases hs.symm.trans hs'
  obtain ⟨left, -, more, below, top, -⟩ := leaves
  have books := (left.books hw).answering top
  obtain ⟨current, -⟩ := caller.frames rfl on
  rw [left.turn, World.leaveBody_serving e top]
  generalize u.answering g d.callable = v at *
  cases e with
  | failed f => exact absurd (.failed f) (accepts f)
  | panicked text => exact absurd (.panicked text) (accepts _)
  | returned vs =>
    have active := on.active
    obtain ⟨-, ho, orderly⟩ := books.orderly_at hs (by rw [active]; rfl)
    have awake : Session.thread.run.run s = (.ok t, s) := by rw [Session.thread_run, active]; rfl
    have room : (s.machine.reserve t vs.length).1 := by
      by_contra none
      exact accepts _ (.full active none)
    have reserved := Session.reserve_run t vs.length s
    rw [if_pos room, Script.Machine.reserve_of_room room] at reserved
    have own : ∀ v ∈ vs, s.Owns v := by
      obtain own | ⟨us, ws, v, r, rfl, before, hv, other⟩ := s.owns_cases vs
      · exact own
      · exact absurd (.foreign active room before hv other) (accepts _)
    obtain ⟨outs, s', packed, -, grows, -, -⟩ := Session.packAll_packs orderly own
    have ready : (Session.beginResults vs).run.run s = (.ok (t, outs), s') := by
      rw [Session.beginResults, try_bind_ok awake, try_bind_ok reserved, try_bind_ok packed]
      rfl
    have on' := Session.leads_beginResults vs s on
    rw [ready] at on'
    have replaced : v.Replaces d.session s' (v.withSession d.session s') :=
      World.replaces_withSession s'
    have kept := replaced.retainAll (World.callablesOf vs)
    rw [World.answer_ready d.previous hs ready]
    generalize ((World.retainAll (World.callablesOf vs)).run _).2 = v' at kept ⊢
    refine ⟨vs, s', rfl, ⟨outs, outs, none, [], Nat.le_refl 0, ?_⟩, kept.session,
      on'.2.isOpen, grows, own⟩
    rw [answers, ← current, on.current]
    change _ :: v'.activities.map Activity.shape = _ :: d.rest.map Activity.shape
    rw [kept.activities, rest]

/-! ## A body that runs -/

/-- A body with its call stays what it is while only slots change. -/
theorem body_of_shapes {steps : List Step} {as : List Activity}
    (shapes : as.map Activity.shape = (d.body steps).map Activity.shape) :
    ∃ (g : Frame) (rest : List Activity), g.callable = d.callable
      ∧ as = .program (some g) steps :: .serving d.session d.previous d.callable :: rest
      ∧ rest.map Activity.shape = d.rest.map Activity.shape := by
  obtain ⟨a, more, rfl, top, more'⟩ := List.map_eq_cons_iff.mp shapes
  obtain ⟨b, rest, rfl, call, others⟩ := List.map_eq_cons_iff.mp more'
  obtain ⟨g, rfl, same⟩ : ∃ g : Frame, a = .program (some g) steps ∧ g.callable = d.callable := by
    cases a with
    | program frame rest =>
      cases frame with
      | none => cases top
      | some g =>
        obtain ⟨frame, rfl⟩ := Activity.program.inj top
        exact ⟨g, rfl, congrArg Frame.callable (Option.some.inj frame)⟩
    | step s waiting => cases waiting <;> cases top
    | delivering d errand => cases errand <;> cases top
    | _ => cases top
  obtain rfl : b = .serving d.session d.previous d.callable := by
    cases b with
    | serving => exact call
    | step s waiting => cases waiting <;> cases call
    | delivering d errand => cases errand <;> cases call
    | _ => cases call
  exact ⟨g, rest, same, rfl, others⟩

theorem shapes_body (steps : List Step) {g : Frame} {rest : List Activity}
    (same : g.callable = d.callable) (others : rest.map Activity.shape = d.rest.map Activity.shape) :
    (.program (some g) steps :: .serving d.session d.previous d.callable :: rest).map Activity.shape
      = (d.body steps).map Activity.shape := by
  simp only [body, List.map_cons, Activity.shape, Option.map_some, same, others]

/-- One turn of a body that nothing lies on. -/
theorem serving_top (steps : List Step) (h : w.Nests π w.control.script? Ss)
    (shapes : w.activities.map Activity.shape = (d.body steps).map Activity.shape) :
    d.Serving (World.advance.run w).2 ∨ ∃ e g u, d.Leaves w e g u := by
  obtain ⟨g, rest, same, top, others⟩ := body_of_shapes shapes
  let w₀ : World := { w with whims := w.whims.tail }
  have covers₀ : World.Covers 0 (d.body steps) w₀ := ⟨[], Nat.le_refl 0, shapes⟩
  have whim : World.nextWhim.run w = (w.whims.headD .pass, w₀) := rfl
  cases control : w.control with
  | proceed =>
    rw [control] at h
    have next : World.Nests π none Ss w₀ :=
      World.steady_nests π none Ss _ _ h (.aside rfl rfl rfl rfl rfl rfl rfl rfl)
    by_cases calm : ∀ id budget, w.whims.headD .pass ≠ .upon id budget
    · cases steps with
      | cons step steps =>
        refine .inl ⟨steps, ?_⟩
        rw [World.advance_proceed control calm, World.proceed, stateM_get_bind]
        dsimp only
        rw [top]
        dsimp only
        rw [stateM_run_bind]
        refine World.covers_beginStep step _
          ⟨fun id s hs => World.rests_of_nests next id s hs, [], Nat.le_refl 0, ?_⟩
        exact shapes_body steps same others
      | nil =>
        obtain ⟨results, made⟩ : ∃ r, (World.bodyResults g).run w₀ = r := ⟨_, rfl⟩
        have leaves : w.Leaves results.1 results.2 := .ended control calm top made
        have kept := leaves.steady
          (I := fun v => World.Nests π none Ss v
            ∧ v.activities.map Activity.shape = (d.body []).map Activity.shape)
          (fun v v' hv calm => ⟨World.steady_nests π none Ss v v' hv.1 calm,
            calm.shapes.trans hv.2⟩) (fun v hv => World.rests_of_nests hv.1) ⟨h, shapes⟩
        obtain ⟨g', rest', same', top', others'⟩ := body_of_shapes kept.2
        exact .inr ⟨_, g', _, leaves, same', [], rest', top', others'⟩
    · obtain ⟨id, hid⟩ := not_forall.mp calm
      obtain ⟨budget, upon⟩ := not_forall_not.mp hid
      refine .inl ⟨steps, ?_⟩
      rw [World.advance, stateM_get_bind, stateM_run_bind, whim, control, upon]
      exact World.covers_sweep budget w₀ covers₀
  | script id =>
    rw [control] at h
    have waits := (h.waits_top top id).mp rfl
    cases waits
  | leave e => exact .inr ⟨e, g, w₀, .broken control, same, steps, rest, top, others⟩
  | done =>
    refine .inl ⟨steps, ?_⟩
    rw [World.advance, stateM_get_bind, stateM_run_bind, whim, control]
    cases w.whims.headD .pass <;> exact covers₀

/-- One turn of a call whose body runs: the body goes on, or it is left. -/
theorem serving_turn (h : w.Nests π w.control.script? Ss) (serving : d.Serving w) :
    d.Serving (World.advance.run w).2 ∨ ∃ e g u, d.Leaves w e g u := by
  obtain ⟨steps, covers⟩ := serving
  obtain below | ⟨a, more, top, shape, others⟩ := covers.cases
  · exact .inl ⟨steps, World.covers_advance h.rests ⟨below, .inr fun b hb => by
      obtain rfl := Option.some.inj hb
      rfl⟩⟩
  · refine serving_top steps h ?_
    rw [top, List.map_cons, shape, others, body, List.map_cons, List.map_cons, List.map_cons]

/-! ## Results on their way -/

variable {outs left : List Session.Outbound} {pin : Option Handle} {rest : List Activity}

theorem shape_answers {a : Activity} (h : a.shape = (d.answers vs outs left pin).shape) :
    a = d.answers vs outs left pin := by
  cases a with
  | delivering d errand =>
    cases errand with
    | results previous vs => exact h
    | _ => cases h
  | step s waiting => cases waiting <;> cases h
  | _ => cases h

/-- Results are still on their way when their delivery goes on. -/
theorem covers_answers (top : w.activities = d.answers vs outs left pin :: rest)
    (others : rest.map Activity.shape = d.rest.map Activity.shape) : d.Answering vs w := by
  refine ⟨outs, left, pin, [], Nat.le_refl 0, ?_⟩
  rw [top, List.map_cons, List.map_cons, others]
  rfl

/-- When all results are on the frame of the host function, it returns with them. -/
theorem gets_delivered (h : w.Nests π none Ss) {callers : List Spine} (caller : d.Caller S)
    (innermost : Ss d.session = S :: callers) (hw : World.Books μ 0 w)
    (top : w.activities = d.answers vs outs [] none :: rest)
    (others : rest.map Activity.shape = d.rest.map Activity.shape) :
    ∃ xs, List.Forall₂ (π.told d.session) vs xs
      ∧ d.Gets xs ((World.deliverNext ⟨d.session, d.thread, outs, [], none⟩
        (.results d.previous vs)).run w).2 := by
  obtain ⟨S', nested, mid⟩ := h.mid_top top rfl (World.part_delivering _).1
  rw [innermost] at nested
  obtain ⟨carries, -⟩ := hw.1.fits _ (top ▸ List.mem_cons_self)
  rw [Errand.part] at nested
  generalize d.previous = previous at nested
  cases nested with
  | @answers _ t info upvalue operands S B k callers _ _ _ _ deep ground count given _ =>
    obtain ⟨s, hs, on⟩ := mid.session
    obtain ⟨current, frames⟩ := caller.frames rfl on
    have all : operands.length = vs.length := count.trans carries.length_eq
    obtain ⟨shapes, control, s', hs', current', returned⟩ := World.leads_results
      ⟨d.session, d.thread, outs, [], none⟩ (some B.thread) vs (d.rest.map Activity.shape) on.isOpen frames (World.finishTop.run w).2
      ⟨by rw [World.finishTop_run, top]; exact others, s, hs, .refl s⟩
    exact ⟨operands.reverse, given.all all, ⟨control, shapes⟩, s', hs', current'.trans current,
      returned⟩

/-- One turn of a delivery of results, if it is innermost and no runtime makes a collection. -/
theorem answering_next (h : w.Nests π none Ss) {callers : List Spine} (caller : d.Caller S)
    (innermost : Ss d.session = S :: callers) (hw : World.Books μ 0 w)
    (proceeds : w.control = .proceed) (top : w.activities = d.answers vs outs left pin :: rest)
    (others : rest.map Activity.shape = d.rest.map Activity.shape) :
    let next := ((World.deliverNext ⟨d.session, d.thread, outs, left, pin⟩
      (.results d.previous vs)).run w).2
    d.Answering vs next ∨ ∃ xs, List.Forall₂ (π.told d.session) vs xs ∧ d.Gets xs next := by
  intro next
  obtain ⟨S', -, mid⟩ := h.mid_top top rfl (World.part_delivering _).1
  obtain ⟨s, hs, on⟩ := mid.session
  have delivers : w.Delivers ⟨d.session, d.thread, outs, left, pin⟩ (.results d.previous vs) rest s :=
    ⟨proceeds, top, hs⟩
  cases pin with
  | some pin => exact .inl (covers_answers (delivers.build rfl).1.top others)
  | none =>
    cases left with
    | nil => exact .inr (gets_delivered h caller innermost hw top others)
    | cons out left =>
      obtain ⟨r, s', again⟩ := hw.repins hs on.isOpen (top ▸ List.mem_cons_self) rfl rfl
      exact .inl (covers_answers (delivers.next rfl rfl again).1.top others)

/-- One turn of a delivery of results that nothing lies on. -/
theorem answering_top (h : d.Stands π w) (hw : World.Books μ 0 w)
    (top : w.activities = d.answers vs outs left pin :: rest)
    (others : rest.map Activity.shape = d.rest.map Activity.shape) :
    d.Answering vs (World.advance.run w).2 ∨ ∃ xs, List.Forall₂ (π.told d.session) vs xs
      ∧ d.Gets xs (World.advance.run w).2 := by
  have count : w.calls d.session = d.rest.countP (Activity.callsFrom d.session) + 1 := by
    rw [World.calls, top, List.countP_cons_of_pos (by simp [answers, Activity.callsFrom]),
      ← countP_shape, others, countP_shape]
  obtain ⟨Ss, S, callers, nests, caller, innermost⟩ := h.innermost count
  let w₀ : World := { w with whims := w.whims.tail }
  have top₀ : w₀.activities = d.answers vs outs left pin :: rest := top
  have whim : World.nextWhim.run w = (w.whims.headD .pass, w₀) := rfl
  have covers₀ : w₀.Covers 0 (d.answers vs outs left pin :: d.rest) := by
    refine ⟨[], Nat.le_refl 0, ?_⟩
    rw [top₀, List.map_cons, List.map_cons, others]
    rfl
  cases control : w.control with
  | proceed =>
    rw [control] at nests
    by_cases calm : ∀ id budget, w.whims.headD .pass ≠ .upon id budget
    · rw [World.advance_proceed control calm, World.proceed_delivering (w := w₀) top₀]
      exact answering_next (w := w₀)
        (World.steady_nests π none Ss _ _ nests (.aside rfl rfl rfl rfl rfl rfl rfl rfl))
        caller innermost ⟨{ hw.1 with }, hw.2⟩ control top₀ others
    · obtain ⟨id, hid⟩ := not_forall.mp calm
      obtain ⟨budget, upon⟩ := not_forall_not.mp hid
      refine .inl ⟨outs, left, pin, ?_⟩
      rw [World.advance, stateM_get_bind, stateM_run_bind, whim, control, upon]
      exact World.covers_sweep budget w₀ covers₀
  | script id =>
    rw [control] at nests
    have waits := (nests.waits_top top id).mp rfl
    rw [Activity.part, answers, Activity.about?] at waits
    dsimp only at waits
    split at waits <;> cases waits
  | leave ending =>
    refine .inl ⟨outs, left, pin, ?_⟩
    rw [World.advance, stateM_get_bind, stateM_run_bind, whim, control]
    cases w.whims.headD .pass <;> exact World.covers_leave_delivering (w := w₀) top₀ covers₀
  | done =>
    refine .inl ⟨outs, left, pin, ?_⟩
    rw [World.advance, stateM_get_bind, stateM_run_bind, whim, control]
    cases w.whims.headD .pass <;> exact covers₀

/-- One turn of a call whose results are on their way: they are afterwards, or the script gets all of
them. -/
theorem answering_turn (h : d.Stands π w) (hw : World.Books μ 0 w) (answering : d.Answering vs w) :
    d.Answering vs (World.advance.run w).2 ∨ ∃ xs, List.Forall₂ (π.told d.session) vs xs
      ∧ d.Gets xs (World.advance.run w).2 := by
  obtain ⟨outs, left, pin, covers⟩ := answering
  obtain below | ⟨a, more, top, shape, others⟩ := covers.cases
  · obtain ⟨Ss, S, callers, nests, -⟩ := id h
    exact .inl ⟨outs, left, pin, World.covers_advance nests.rests ⟨below, .inr fun b hb => by
      obtain rfl := Option.some.inj hb
      rfl⟩⟩
  · obtain rfl := shape_answers shape
    exact answering_top h hw top others

end Dispatch

end Host

end ScriptBridge

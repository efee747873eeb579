import ScriptBridge.Proofs.Innermost
import ScriptBridge.Proofs.Nesting

/-!
# ScriptBridge.Proofs.Shifts

How the calls in progress of each session change in one turn of the world.  Each part of a turn begins
in a world whose sessions stand as the activities say, and leads to such a world again:
`World.Turned`.  A turn enters at most one host callable of a session, or leaves the innermost one.

Main facts:

* `World.leads_mid`, `World.leads_settle`, `World.leads_suspend` — taking up a session, and leaving it;
* `World.leads_attemptOn`, `World.leads_trySession` — work on it in between.
-/

namespace ScriptBridge.Host

open Script (Spine Wait ThreadId FrameInfo)

/-- The session whose runtime runs next. -/
def Control.script? : Control → Option SessionId
  | .script id => some id
  | _ => none

/-- How the calls of a session in progress change in one turn.  When one was entered, its body runs
next. -/
inductive Shift (waits : Bool) : List Spine → List Spine → Prop
  | same {callers : List Spine} : Shift waits callers callers
  | entered {S : Spine} {callers : List Spine} : waits = false → Shift waits callers (S :: callers)
  | left {S : Spine} {callers : List Spine} : Shift waits (S :: callers) callers

variable {ps : List Part} {p : Part} {q : Stand} {callers : List Spine} {S B : Spine} {k : Wait}
  {t : ThreadId} {info : FrameInfo} {upvalue : Script.Value} {operands new : List Script.Value}
  {noted : Nat → Spine → Prop}

namespace World

variable {α : Type} {π : Past} {w w' : World} {id j : SessionId} {r : Option SessionId} {s : Session}
  {Ss Ss' : SessionId → List Spine} {I : Session → Prop} {a : Activity} {rest : List Activity}
  {x : Act α} {R : α → World → Prop}

/-- What a turn leads to. -/
def Turned (π : Past) (Ss : SessionId → List Spine) (w : World) : Prop :=
  ∃ Ss', Nests π w.control.script? Ss' w
    ∧ ∀ id, Shift (decide (w.control.script? = some id)) (Ss id) (Ss' id)

/-! ## Between parts of a turn -/

theorem nests_control (h : w.Nests π r Ss) (c : Control) : Nests π r Ss { w with control := c } :=
  ⟨⟨h.absent, h.named, h.distinct, h.numbered, h.rooted,
    h.routed.aside rfl rfl rfl rfl rfl rfl fun _ _ _ closing => closing, h.clean, h.unborn⟩, h.lies, h.runs⟩

theorem turned_of_nests (h : w.Nests π none Ss') (shift : ∀ id, Shift false (Ss id) (Ss' id))
    (control : w.control.script? = none) : w.Turned π Ss := by
  refine ⟨Ss', control ▸ h, fun id => ?_⟩
  rw [control]
  exact shift id

theorem leads_setControl {c : Control} (shift : ∀ id, Shift false (Ss id) (Ss' id))
    (control : c.script? = none) : Leads (Nests π none Ss') (setControl c) fun _ => Turned π Ss :=
  fun _ h => turned_of_nests (nests_control h c) shift control

theorem control_goOn (step : Step) (r : Except Mishap Answer) (w : World) :
    ((goOn step r).run w).2.control.script? = none := by
  cases r with
  | ok a => rfl
  | error mishap =>
    have either : ∀ b : Bool, ((if b then setControl .proceed
        else setControl (.leave (.failed mishap.toFailure)) : Act Unit).run w).2.control.script?
          = none := by
      intro b
      cases b <;> rfl
    exact either (step.attempt || w.frame?.isNone)

theorem leads_finishStep (step : Step) (r : Except Mishap Answer)
    (shift : ∀ id, Shift false (Ss id) (Ss' id)) :
    Leads (Nests π none Ss') (finishStep step r) fun _ => Turned π Ss := by
  intro w h
  refine turned_of_nests (calm_finishStep (steady_nests π none Ss') step r w h) shift ?_
  have shape : finishStep step r = if !step.quiet then (do report (.result r); goOn step r)
      else goOn step r := rfl
  rw [shape]
  split <;> exact control_goOn step r _

theorem leads_finishCall (step : Step) (c : Calling) (r : Except Mishap (List Value))
    (shift : ∀ id, Shift false (Ss id) (Ss' id)) :
    Leads (Nests π none Ss') (finishCall step c r) fun _ => Turned π Ss := by
  have steady := steady_nests π none Ss'
  refine (Leads.of_preserves (calm_endLoans steady c)).bind fun _ => ?_
  cases r with
  | error mishap => exact leads_finishStep step _ shift
  | ok vs =>
    exact (Leads.of_preserves (calm_callAnswer steady c vs)).bind fun r =>
      leads_finishStep step r shift

theorem shift_update (shift : Shift false (Ss id) callers) (j : SessionId) :
    Shift false (Ss j) (Function.update Ss id callers j) := by
  by_cases here : j = id
  · rw [here, Function.update_self]
    exact shift
  · rw [Function.update_of_ne here]
    exact .same

/-- Whoever works on a session goes on while no runtime runs. -/
theorem leads_settle (nested : Nested (π.told id) (π.noted id) ps (.seated S) callers)
    (next : Leads (Nests π none (Function.update Ss id callers)) x R) :
    Leads (Mid π id ps (Session.On S.thread S) Ss) x R :=
  next.mono (fun _ h => Mid.nests (q := .seated S) h nested) fun _ _ h => h

/-- Whoever works on a session lets its runtime run. -/
theorem leads_suspend (nested : Nested (π.told id) (π.noted id) ps (.under k S) callers)
    (shift : Shift true (Ss id) callers) :
    Leads (Mid π id ps (Session.Under (k, S)) Ss) (setControl (.script id)) fun _ => Turned π Ss := by
  intro w h
  refine ⟨_, nests_control (Mid.nests (q := .under k S) h nested) _, fun j => ?_⟩
  by_cases here : j = id
  · subst here
    rw [Function.update_self]
    exact decide_eq_true (p := (Control.script j).script? = some j) rfl ▸ shift
  · rw [Function.update_of_ne here]
    exact .same

theorem shape_of_idle {m : Script.Machine} (h : m.Idle S) : ∃ t info upvalue operands S',
    S = (t, .host info upvalue operands) :: S' := by
  obtain ⟨info, upvalue, operands, S', eq⟩ := h.cons
  exact ⟨_, info, upvalue, operands, S', eq⟩

/-- A session that is open may be worked on while no runtime runs. -/
theorem leads_mid (next : ∀ ps t info upvalue operands S, π.Clean ps.length →
      Nested (π.told id) (π.noted id) ps (.seated ((t, .host info upvalue operands) :: S)) (Ss id) →
      Leads (Mid π id ps (Session.On t ((t, .host info upvalue operands) :: S)) Ss) x R) :
    Leads (fun w => Nests π none Ss w ∧ ∃ s, w.sessions[id]? = some s ∧ s.isOpen = true) x R := by
  rintro w ⟨h, s, hs, isOpen⟩
  obtain ⟨S, nested, mid⟩ := h.mid hs isOpen
  obtain ⟨s', -, on⟩ := mid.session
  obtain ⟨t, info, upvalue, operands, S', rfl⟩ := shape_of_idle on.idle
  exact next _ t info upvalue operands S' mid.above nested w mid

theorem rests_of_nests (h : w.Nests π none Ss) : w.Rests := by
  intro id s hs active
  obtain ⟨q, -, holds, seated⟩ := h.lies id s hs
  cases q with
  | seated S =>
    obtain ⟨t, info, upvalue, operands, S', rfl⟩ := shape_of_idle (Session.On.idle holds)
    exact Session.On.rests holds
  | under k S => cases seated
  | shut =>
    rw [Session.Shut.active holds] at active
    cases active

/-! ## What runs next -/

theorem control_onSession {c : Control} {op : Op α} [Inhabited α] :
    Preserves (fun w => w.control = c) (onSession id op) := by
  intro w h
  cases hs : w.sessions[id]? with
  | none => rw [onSession_run_none hs]; exact h
  | some s => rw [onSession_run_some hs]; exact h

theorem control_onDirectory {c : Control} {op : Clerk α} :
    Preserves (fun w => w.control = c) (onDirectory op) := fun _ h => h

/-- Letting go of things does not change what runs next. -/
theorem control_release {c : Control} (cs : List Chore) :
    Preserves (fun w => w.control = c) (release cs) :=
  preserves_release (fun _ _ => control_onSession) (fun _ _ => control_onSession)
    (fun _ _ h => h) (fun _ _ _ h => h) cs

/-- A part of a turn that goes on with what is on top. -/
theorem leads_quiet {P : World → Prop} (h : Leads P x fun _ => Nests π none Ss)
    (keeps : Preserves (fun w => w.control = .proceed) x) :
    Leads (fun w => P w ∧ w.control = .proceed) x fun _ => Turned π Ss :=
  fun w hw => turned_of_nests (h w hw.1) (fun _ => .same) (by rw [keeps w hw.2]; rfl)

/-! ## Work on a session -/

theorem leads_height : Leads (Mid π id ps (Session.On t ((t, .host info upvalue operands) :: S)) Ss)
    (onSession id (do return (← get).height) : Act Nat) fun base w => base = operands.length
      ∧ Mid π id ps (Session.On t ((t, .host info upvalue operands) :: S)) Ss w := by
  have looks : Leads (Session.On t ((t, .host info upvalue operands) :: S))
      (do return (← get).height : Op Nat) fun base s => base = operands.length
        ∧ Session.On t ((t, .host info upvalue operands) :: S) s := fun s h => ⟨h.height, h⟩
  refine (leads_onSession looks (fun _ h => h.isOpen) fun _ _ h => h.2.isOpen).mono
    (fun _ h => h) fun base w h => ?_
  obtain ⟨s, hs, all, on⟩ := h.session
  exact ⟨all, h.toOrderly, ⟨s, hs, on⟩, h.parts, h.others⟩

/-- What is known of the session, and has nothing to do with it. -/
theorem leads_given {C : Prop} (h : C → Leads (Mid π id ps I Ss) x R) :
    Leads (Mid π id ps (fun s => C ∧ I s) Ss) x R := by
  intro w mid
  obtain ⟨s, hs, known, holds⟩ := mid.session
  exact h known w ⟨mid.toOrderly, ⟨s, hs, holds⟩, mid.parts, mid.others⟩

theorem leads_choose {ι : Type} {J : ι → Session → Prop}
    (h : ∀ i, Leads (Mid π id ps (J i) Ss) x R) :
    Leads (Mid π id ps (fun s => ∃ i, J i s) Ss) x R := by
  intro w mid
  obtain ⟨s, hs, i, holds⟩ := mid.session
  exact h i w ⟨mid.toOrderly, ⟨s, hs, holds⟩, mid.parts, mid.others⟩

theorem leads_attemptOn {op : Attempt α} {E : Failure → Session → Prop} {Q : α → Session → Prop}
    (leads : Leads I op.run (Outcome E Q)) (before : ∀ s, I s → s.isOpen = true)
    (failed : ∀ f s, E f s → s.isOpen = true) (done : ∀ a s, Q a s → s.isOpen = true) :
    Leads (Mid π id ps I Ss) (attemptOn id op)
      (Outcome (fun f => Mid π id ps (E f) Ss) fun a => Mid π id ps (Q a) Ss) := by
  intro w h
  have after := h.onSession leads before fun r s hs => by
    cases r with
    | ok a => exact done a s hs
    | error f => exact failed f s hs
  rw [attemptOn]
  cases hr : ((onSession id op.run).run w).1 with
  | ok a => rw [hr] at after; exact after
  | error f => rw [hr] at after; exact after

theorem leads_trySession {op : Attempt α} {J : Session → Prop} {Q : α → Session → Prop}
    (leads : Leads I op.run (Outcome (fun _ => J) Q)) (before : ∀ s, I s → s.isOpen = true)
    (failed : ∀ s, J s → s.isOpen = true) (done : ∀ a s, Q a s → s.isOpen = true) :
    Leads (Mid π id ps I Ss) (trySession id op).run
      (Outcome (fun _ => Mid π id ps J Ss) fun a => Mid π id ps (Q a) Ss) := by
  refine .tryBind (E := fun _ : Mishap => Mid π id ps J Ss)
    (.lift (leads_attemptOn leads before (fun _ => failed) done)) fun r => ?_
  cases r with
  | ok a => exact .tryPure a fun _ h => h
  | error f => exact .throw _ fun _ h => h

end World

end ScriptBridge.Host

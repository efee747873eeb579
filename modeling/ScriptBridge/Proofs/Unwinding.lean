import ScriptBridge.Proofs.Serving
import ScriptBridge.Proofs.ErrorText

/-!
# ScriptBridge.Proofs.Unwinding

An error that no script catches.  The runtime takes its frames away one after the other, down to where
the host waits, and leaves the error there alone; then the step that waited fails with its text.
This may take several turns, but not for ever: in each turn the runtime takes frames away, or it was
to make no step at all, which it is told only so often.

Main facts:

* `Machine.run_unwind` — what a runtime does with an error that goes up;
* `World.rises_turn` — one turn of it;
* `World.Arrives.fails` — the step that waits for the script fails with the text of the error.
-/

namespace ScriptBridge

open Script (Spine FrameInfo ThreadId)

namespace Script

/-- Whether an error goes through a frame as it is: nothing there catches it, no variable is to be
closed, and no coroutine ends. -/
def Frame.passesOn : Frame → Bool
  | .script _ a => a.closers.isEmpty
  | .library _ (.guarded _) => false
  | .library .. | .host .. => true
  | .mark _ .handling | .mark _ (.closing _) => true
  | .mark .. => false

/-- Where the host waits for a script that it has called. -/
def waitsBelow (i info : FrameInfo) (upvalue : Value) (operands : List Value) (below : List Frame) :
    List Frame := .mark i .fromHost :: .host info upvalue operands :: below

namespace Machine

variable {m : Machine} {x upvalue : Value} {f : Frame} {above below rest : List Frame}
  {i info : FrameInfo} {operands : List Value}

theorem unwindStep_passesOn (hf : m.frames = f :: rest) (passes : f.passesOn = true) :
    m.unwindStep x = { m with frames := rest } := by
  unfold unwindStep
  rw [hf]
  cases f with
  | script info a =>
    obtain closers : a.closers = [] := List.isEmpty_iff.mp passes
    dsimp only
    rw [closers]
  | library info task =>
    cases task with
    | guarded => cases passes
    | _ => rfl
  | host => rfl
  | mark info mark =>
    cases mark with
    | handling | closing => rfl
    | _ => cases passes

/-- An error goes up through the frames that let it pass, one in each step, and then the host gets
it. -/
theorem run_unwind (mode : m.mode = .unwind x)
    (hf : m.frames = above ++ waitsBelow i info upvalue operands below)
    (passes : ∀ f ∈ above, f.passesOn = true) (fuel : Nat) :
    m.run fuel = if above.length < fuel then
      { m with
        frames := .host info upvalue (x :: operands) :: below
        overflowed := false
        mode := .paused .raised }
    else { m with frames := above.drop fuel ++ waitsBelow i info upvalue operands below } := by
  induction fuel generalizing m above with
  | zero =>
    rw [if_neg (Nat.not_lt_zero _), List.drop_zero, ← hf]
    rfl
  | succ fuel ih =>
    have goes : m.run (fuel + 1) = (m.unwindStep x).run fuel := by
      rw [run, mode, step, mode]
    rw [goes]
    cases above with
    | nil =>
      have came : m.unwindStep x = { m with
          frames := .host info upvalue (x :: operands) :: below
          overflowed := false
          mode := .paused .raised } := by
        unfold unwindStep
        rw [hf]
        rfl
      rw [came, List.length_nil, if_pos (Nat.zero_lt_succ fuel)]
      exact run_paused rfl fuel
    | cons f above =>
      have hf : m.frames = f :: (above ++ waitsBelow i info upvalue operands below) := hf
      rw [List.forall_mem_cons] at passes
      have next := ih
        (m := { m with frames := above ++ waitsBelow i info upvalue operands below }) mode rfl passes.2
      rw [unwindStep_passesOn hf passes.1, next]
      simp only [List.length_cons, Nat.add_lt_add_iff_right, List.drop_succ_cons]

/-- An error is raised above frames that let it pass. -/
theorem raise_unwind (hf : m.frames = above ++ waitsBelow i info upvalue operands below)
    (passes : ∀ f ∈ above, f.passesOn = true) : m.raise x = m.unwind x := by
  have missed : ∀ f ∈ above, f.catches = false := by
    intro f hf
    have passes := passes f hf
    cases f with
    | library info task => cases task <;> first | rfl | cases passes
    | mark info mark => cases mark <;> first | rfl | cases passes
    | _ => rfl
  have found : m.frames.find? Frame.catches = some (.mark i .fromHost) := by
    rw [hf, List.find?_append, List.find?_eq_none.mpr fun f hf => by simp [missed f hf]]
    rfl
  rw [raise, raiseAt, found]
  rfl

/-- No collection is made while an error goes up. -/
theorem strike_unwind (mode : m.mode = .unwind x) (anchors : List Value) (budget : Nat) :
    m.strike anchors budget = m := by
  have busy : m.canCollect = false := by
    rw [canCollect, mode]
    exact Bool.and_false _
  rw [strike, busy]
  rfl

end Machine

end Script

namespace Host.World

variable {w : World} {id : SessionId} {s : Session} {x upvalue : Script.Value} {a : Activity}
  {as rest : List Activity} {π : Past} {Ss : SessionId → List Spine} {step : Step} {base : Nat}
  {above below : List Script.Frame} {i info : FrameInfo} {operands : List Script.Value}

/-! ## An error on its way -/

/-- Whether an error goes up through the frames of a runtime, while the activities are what they are
given as, but for slots. -/
def Rises (w : World) (id : SessionId) (x : Script.Value) (frames : List Script.Frame)
    (as : List Activity) : Prop :=
  w.control = .script id ∧ w.activities.map Activity.shape = as.map Activity.shape
    ∧ ∃ s, w.sessions[id]? = some s ∧ s.machine.mode = .unwind x ∧ s.machine.frames = frames

/-- Whether the host gets an error in the next turn, on top of its frame. -/
def Arrives (w : World) (id : SessionId) (x : Script.Value) (as : List Activity) : Prop :=
  w.control = .script id ∧ w.activities.map Activity.shape = as.map Activity.shape
    ∧ ∃ s info upvalue operands below, w.sessions[id]? = some s
      ∧ (s.machine.run w.patience).pause? = some .raised
      ∧ (s.machine.run w.patience).frames = .host info upvalue (x :: operands) :: below

/-- A turn in which a runtime goes on with an error. -/
theorem advance_unwind (control : w.control = .script id) (hs : w.sessions[id]? = some s)
    (mode : (s.machine.run w.patience).mode = .unwind x) :
    (advance.run w).2.control = .script id ∧ (advance.run w).2.activities = w.activities
      ∧ (advance.run w).2.whims = w.whims.tail
      ∧ (advance.run w).2.sessions[id]? = some { s with machine := s.machine.run w.patience } := by
  let w₀ : World := { w with whims := w.whims.tail }
  let s' : Session := { s with machine := s.machine.run w.patience }
  have here : w₀.sessions[id]? = some s := hs
  have goes : (Session.runMachine w.patience).run s = (none, s') := by
    change ((s.machine.run w.patience).pause?, s') = _
    rw [Script.Machine.pause?, mode]
  have struck : ∀ budget, (Session.strike budget).run s' = ((), s') := fun budget => by
    have same := Script.Machine.strike_unwind mode s'.anchors.values budget
    change ((), { s' with machine := (s.machine.run w.patience).strike s'.anchors.values budget }) = _
    rw [same]
  have turn : (advance.run w).2 = ((w.pursue id).run (w₀.withSession id s')).2 := by
    rw [advance_script control, stateM_run_bind, onSession_run_some here, goes]
  have there : (w₀.withSession id s').sessions[id]? = some s' := getElem?_withSession_self ..
  rw [turn, pursue]
  split
  · rw [onSession_run_some there, struck]
    exact ⟨control, rfl, rfl, getElem?_withSession_self ..⟩
  · exact ⟨control, rfl, rfl, there⟩

/-- One turn of an error that goes up through frames that let it pass.  It comes to the host in this
turn, or frames have been taken away, or the runtime was to make no step. -/
theorem rises_turn (rises : w.Rises id x
      (above ++ Script.waitsBelow i info upvalue operands below) as)
    (passes : ∀ f ∈ above, f.passesOn = true) :
    w.Arrives id x as ∨ ∃ above', (∀ f ∈ above', f.passesOn = true)
      ∧ (advance.run w).2.Rises id x (above' ++ Script.waitsBelow i info upvalue operands below) as
      ∧ above'.length + (advance.run w).2.whims.length < above.length + w.whims.length := by
  obtain ⟨control, shapes, s, hs, mode, hf⟩ := rises
  have ran := Script.Machine.run_unwind mode hf passes w.patience
  by_cases few : above.length < w.patience
  · rw [if_pos few] at ran
    exact .inl ⟨control, shapes, s, info, upvalue, operands, below, hs, by rw [ran]; rfl, by rw [ran]⟩
  rw [if_neg few] at ran
  have mode' : (s.machine.run w.patience).mode = .unwind x := by rw [ran]; exact mode
  obtain ⟨control', same, whims, hs'⟩ := advance_unwind control hs mode'
  refine .inr ⟨above.drop w.patience, fun f hf => passes f (List.mem_of_mem_drop hf),
    ⟨control', same ▸ shapes, _, hs', mode', by rw [ran]⟩, ?_⟩
  rw [whims, List.length_drop, List.length_tail]
  have steps : 0 < w.patience ∨ 0 < w.whims.length := by
    unfold patience
    split
    · rename_i whim
      refine .inr (List.length_pos_iff.mpr fun none => ?_)
      rw [none] at whim
      cases whim
    · exact .inl (by decide)
  omega

/-- The step that waits for a script, whatever has become of the slots. -/
theorem of_awaits {waiting : Waiting} (shape : a.shape = (Activity.step step waiting).shape)
    (awaits : awaits? (.step step waiting) = some base) :
    awaits? a = some base ∧ ((∃ id, a = .step step (.executing id base))
      ∨ ∃ id outs c, a = .step step (.calling id base outs c)) := by
  cases waiting with
  | executing id b =>
    obtain rfl := Option.some.inj awaits
    cases a with
    | step s waiting =>
      cases waiting <;> cases shape
      exact ⟨rfl, .inl ⟨id, rfl⟩⟩
    | delivering d errand => cases errand <;> cases shape
    | _ => cases shape
  | calling id b outs c =>
    obtain rfl := Option.some.inj awaits
    cases a with
    | step s waiting =>
      cases waiting with
      | calling id' b' outs' c' =>
        obtain ⟨rfl, same⟩ := Activity.step.inj shape
        obtain ⟨rfl, rfl, rfl, -⟩ := Waiting.calling.inj same
        exact ⟨rfl, .inr ⟨id', outs', c', rfl⟩⟩
      | _ => cases shape
    | delivering d errand => cases errand <;> cases shape
    | _ => cases shape
  | _ => cases awaits

/-- What is on top while a runtime runs is about its session. -/
theorem Nests.session_top (h : w.Nests π (some id) Ss) (top : w.activities = a :: rest)
    {j : SessionId} {p : Part} (about : a.about? = some (j, p)) : j = id := by
  by_contra other
  have waits := (h.waits_top top id).mp rfl
  rw [Activity.part_of_ne about (Ne.symm other)] at waits
  cases waits

/-- The step that waits for a runtime fails with the text of the error that the runtime leaves on the
host's frame, and goes away. -/
theorem finishScript_fails {text : String} {t : ThreadId} (hs : w.sessions[id]? = some s)
    (active : s.active = some t) (onTop : s.machine.operandsOf t = .str text.toUTF8 :: operands)
    (is : w.activities = .step step (.executing id base) :: rest
      ∨ ∃ outs c, w.activities = .step step (.calling id base outs c) :: rest) :
    ∃ v : World, (finishScript id true).run w = (finishStep step
        (.error (.failure (.scriptError (Session.withoutNul text))))).run v
      ∧ v.activities.map Activity.shape = rest.map Activity.shape := by
  have here : (finishTop.run w).2.sessions[id]? = some s := hs
  let v := ((onSession id (Session.takeError base)).run (finishTop.run w).2).2
  have taken : (onSession id (Session.takeError base)).run (finishTop.run w).2
      = (.scriptError (Session.withoutNul text), v) := by
    refine Prod.ext ?_ rfl
    rw [onSession_run_some here]
    exact Session.takeError_run base active onTop
  have left : ∀ a, w.activities = a :: rest →
      v.activities.map Activity.shape = rest.map Activity.shape := by
    intro a top
    change ((onSession id (Session.takeError base)).run _).2.activities.map _ = _
    rw [onSession_run_some here]
    change (w.activities.drop 1).map Activity.shape = _
    rw [top, List.drop_one, List.tail_cons]
  obtain top | ⟨outs, c, top⟩ := is
  · refine ⟨v, ?_, left _ top⟩
    rw [finishScript_executing top, finishExecuting, if_pos rfl, stateM_run_bind, taken]
  · have steady : Steady fun v => v.activities.map Activity.shape = rest.map Activity.shape :=
      fun _ _ hv calm => calm.shapes.trans hv
    refine ⟨((endLoans c).run ((releaseOutbound id outs).run v).2).2, ?_,
      calm_endLoans steady c _ (calm_releaseOutbound steady id outs _ (left _ top))⟩
    rw [finishScript_calling top, finishCalling, if_pos rfl, stateM_run_bind, taken]
    rfl

/-- An error that the host gets ends the step that waits for the script: the step fails with the
text of the error. -/
theorem Arrives.fails (h : w.Nests π w.control.script? Ss) {text : String} {waiting : Waiting}
    (arrives : w.Arrives id (.str text.toUTF8) (.step step waiting :: rest))
    (awaits : awaits? (.step step waiting) = some base) :
    ∃ v : World, (advance.run w).2 = ((finishStep step
        (.error (.failure (.scriptError (Session.withoutNul text))))).run v).2
      ∧ v.activities.map Activity.shape = rest.map Activity.shape := by
  obtain ⟨control, shapes, s, info, upvalue, operands, below, hs, pauses, hf⟩ := arrives
  rw [control] at h
  let w₀ : World := { w with whims := w.whims.tail }
  let w₁ : World := w₀.withSession id { s with machine := s.machine.run w.patience }
  have here : w₀.sessions[id]? = some s := hs
  have there : w₁.sessions[id]? = some { s with machine := s.machine.run w.patience } :=
    getElem?_withSession_self ..
  have ran : (onSession id (Session.runMachine w.patience)).run w₀ = (some .raised, w₁) := by
    rw [onSession_run_some here]
    exact congrArg (·, w₁) pauses
  have turn : advance.run w = (finishScript id true).run w₁ := by
    rw [advance_script control, stateM_run_bind, ran]
    rfl
  obtain ⟨a, rest', top, shape, others⟩ := List.map_eq_cons_iff.mp shapes
  obtain ⟨waits, is⟩ := of_awaits shape awaits
  have nests : World.Nests π (some id) Ss w₀ :=
    steady_nests π (some id) Ss _ _ h (.aside rfl rfl rfl rfl rfl rfl rfl rfl)
  obtain ⟨active, error, old, onTop, -⟩ := nests.raised ran there top waits
  obtain rfl : error = .str text.toUTF8 := by
    have same := (Script.Machine.operandsOf_current hf).symm.trans onTop
    exact (List.cons.inj same).1.symm
  have is : w₁.activities = .step step (.executing id base) :: rest'
      ∨ ∃ outs c, w₁.activities = .step step (.calling id base outs c) :: rest' := by
    obtain ⟨j, rfl⟩ | ⟨j, outs, c, rfl⟩ := is
    · obtain rfl : j = id := h.session_top top rfl
      exact .inl top
    · obtain rfl : j = id := h.session_top top rfl
      exact .inr ⟨outs, c, top⟩
  obtain ⟨v, finishes, left⟩ := finishScript_fails there active onTop is
  exact ⟨v, by rw [turn, finishes], left.trans others⟩

end Host.World

end ScriptBridge

import ScriptBridge.Proofs.Delivering

/-!
# ScriptBridge.Proofs.Attending

The turns in which host code answers a runtime: a host callable is left, and what a runtime waits for
is done.

Main facts:

* `World.leads_leaveBody` — the body of a callable ends;
* `World.leads_serve`, `World.leads_releaseHandle`, `World.leads_finishScript`,
  `World.leads_finishClose`, `World.leads_finishSweep` — the kinds of pauses;
* `World.leads_attend` — any pause.
-/

namespace ScriptBridge.Host

open Script (Spine Wait ThreadId FrameInfo)

variable {ps : List Part} {p : Part} {q : Stand} {callers : List Spine} {S B : Spine} {k : Wait}
  {t : ThreadId} {info : FrameInfo} {upvalue : Script.Value} {operands new : List Script.Value}
  {noted : Nat → Spine → Prop}

namespace World

variable {α : Type} {π : Past} {w w' : World} {id j : SessionId} {r : Option SessionId} {s : Session}
  {Ss Ss' : SessionId → List Spine} {I : Session → Prop} {a : Activity} {rest : List Activity}
  {x : Act α} {R : α → World → Prop}

/-! ## Leaving host callables -/

/-- The innermost host callable of a session is left: its caller gets the results, once they are
delivered, or an error. -/
theorem leads_answerScript (deep : S ≠ []) (ground : S.ground = (k, B))
    (below : Nested (π.told id) (π.noted id) ps (.under k B) callers)
    (eq : Ss id = ((t, .host info upvalue []) :: S) :: callers) (clean : π.Clean ps.length)
    (callable : CallableId) (ending : Ending) :
    Leads (Mid π id ps (Session.On t ((t, .host info upvalue []) :: S)) Ss)
      (answerScript id (some B.thread) callable ending) fun _ => Turned π Ss := by
  have refuse : ∀ f, Leads (Mid π id ps (Session.On t ((t, .host info upvalue []) :: S)) Ss) (do
      onSession id (Session.leave (some B.thread))
      onSession id (Session.raiseFailure f)
      setControl (.script id) : Act Unit) fun _ => Turned π Ss := fun f =>
    leads_goBack below (eq ▸ .left) (Session.leads_raiseFailure deep ground f)
  refine .bind (leads_still fun J hJ => calm_release hJ _) fun _ => ?_
  cases ending with
  | failed f => exact refuse f
  | panicked text => exact refuse _
  | returned vs =>
    refine (leads_attemptOn (Session.leads_beginResults vs) (fun _ h => h.isOpen)
      (fun _ _ h => h.isOpen) fun _ _ h => h.2.isOpen).bind fun r => ?_
    cases r with
    | error f => exact .bind (leads_still fun J hJ => calm_dropValues hJ _) fun _ => refuse f
    | ok r =>
      obtain ⟨t', outs⟩ := r
      refine leads_given fun same => ?_
      obtain rfl : t' = t := same
      exact .bind (leads_still fun J hJ => calm_retainAll hJ _) fun _ =>
        leads_beginDelivery (S := (t', .host info upvalue []) :: S)
          (.answers (clean _ _ _ (Nat.lt_succ_self _)) deep ground (Nat.zero_add _)
            (conforms_nil _ _) below) (eq ▸ .same)

/-- Whether nothing is noted of what the innermost activity can end. -/
def Slack (π : Past) (w : World) : Prop :=
  π.Clean 0 ∨ ∃ base : List Activity, π.Clean base.length ∧ w.Loose base

theorem steady_slack (π : Past) : Steady (Slack π) := fun w w' h calm =>
  h.imp_right fun ⟨base, clean, loose⟩ => ⟨base, clean, steady_loose w w' loose calm⟩

theorem Slack.pop (h : w.Slack π) (top : w.activities = a :: rest) : π.Clean rest.length := by
  obtain clean | ⟨base, clean, loose⟩ := h
  · exact clean.mono (Nat.zero_le _)
  · have length := loose.covers.length
    rw [top, List.length_cons] at length
    exact clean.mono (by omega)

theorem Slack.both {b : Activity} (h : w.Slack π) (top : w.activities = a :: b :: rest)
    (entered : b.isEntered = true) : π.Clean rest.length := by
  obtain clean | ⟨base, clean, loose⟩ := h
  · exact clean.mono (Nat.zero_le _)
  · have length := (loose.both top entered).length
    rw [top, List.length_cons, List.length_cons] at length
    exact clean.mono (by omega)

/-- The body on top is left. -/
theorem leads_leaveBody (ending : Ending) :
    Leads (fun w => Nests π none Ss w ∧ w.Slack π) (leaveBody ending) fun _ => Turned π Ss := by
  have steady := steady_nests π none Ss
  refine Leads.bind (Q := fun _ w => (Nests π none Ss w ∧ w.Slack π) ∧ w.control = .proceed)
    (fun w h => ⟨⟨nests_control h.1 _, h.2.imp_right fun ⟨base, clean, loose⟩ =>
      ⟨base, clean, loose.covers, loose.apart⟩⟩, rfl⟩) fun _ => .get_bind fun w h => ?_
  obtain ⟨⟨h, slack⟩, control⟩ := h
  split
  · rename_i f steps id previous callable more top
    have next : (finishTop.run w).2.activities = .serving id previous callable :: more := by
      change w.activities.drop 1 = _
      rw [top]
      rfl
    have clean := slack.both top rfl
    obtain ⟨S, nested, mid⟩ := Nests.mid_top (nests_pop h top rfl (slack.pop top)) next rfl (by simp)
    rw [← List.length_map (Activity.part id)] at clean
    generalize more.map (Activity.part id) = ps at nested mid clean
    generalize eq : Ss id = callers at nested
    cases nested with
    | @serves _ t info upvalue S B k callers _ deep ground below =>
      have left : Leads (Mid π id (.serves (some B.thread) :: ps)
          (Session.On t ((t, .host info upvalue []) :: S)) Ss) (do
            finishTop
            dropSlots f.slots
            answerScript id (some B.thread) callable ending) fun _ => Turned π Ss :=
        .bind (leads_finishTop (by simp) clean) fun _ =>
          .bind (leads_still fun J hJ => calm_dropSlots hJ _) fun _ =>
            leads_answerScript deep ground below eq clean callable ending
      rw [stateM_run_bind]
      exact left _ mid
  · rename_i f steps step c more top
    have next : (finishTop.run w).2.activities = .step step (.callingHost c) :: more := by
      change w.activities.drop 1 = _
      rw [top]
      rfl
    rw [stateM_run_bind, stateM_run_bind]
    exact Leads.bind (Leads.of_preserves (calm_dropSlots steady f.slots))
      (fun _ => leads_finishCall step c _ fun _ => .same) _
      (nests_pop (nests_pop h top rfl (slack.pop top)) next rfl (slack.both top rfl))
  · exact turned_of_nests (calm_dropValues steady _ w h) (fun _ => .same)
      (by rw [dropValues, control_release _ w control]; rfl)

/-! ## What a runtime waits for -/

/-- A host callable that a runtime calls is entered, or the runtime gets an error. -/
theorem leads_serve (nested : Nested (π.told id) (π.noted id) ps (.under k B) (Ss id))
    (clean : π.Clean ps.length) :
    Leads (Mid π id ps (fun s => Session.Under (k, B) s ∧ s.machine.mode = .paused .invoked) Ss)
      (serve id) fun _ => Turned π Ss := by
  refine .bind (leads_ownerOf fun _ h => h.1.isOpen) fun owner => .given fun found => ?_
  subst found
  refine .bind (leads_onSession Session.leads_enter (fun _ h => h.1.isOpen) fun _ s h => ?_)
    fun previous => ?_
  · obtain ⟨-, t, info, upvalue, operands, S, -, -, on⟩ := h
    exact on.isOpen
  refine leads_given fun same => leads_choose fun t => leads_choose fun info =>
    leads_choose fun upvalue => leads_choose fun operands => leads_choose fun S =>
    leads_given fun deep => leads_given fun ground => ?_
  obtain rfl : previous = some B.thread := same
  have refuse : ∀ f, Leads (Mid π id ps (Session.On t ((t, .host info upvalue []) :: S)) Ss) (do
      onSession id (Session.leave (some B.thread))
      onSession id (Session.raiseFailure f)
      setControl (.script id) : Act Unit) fun _ => Turned π Ss := fun f =>
    leads_goBack nested .same (Session.leads_raiseFailure deep ground f)
  refine .bind (leads_onSession Session.leads_takeArguments (fun _ h => h.isOpen) fun _ _ h => h.isOpen) fun cells => ?_
  have look : ∀ {β : Type} [Inhabited β] (f : Session → β) (J : World → Prop), Steady J →
      Preserves J (onSession id (do return f (← get)) : Act β) :=
    fun f J hJ => calm_onSession hJ fun s => .refl s
  have freed : ∀ f, Leads (Mid π id ps (Session.On t ((t, .host info upvalue []) :: S)) Ss) (do
      onSession id (Session.freeAll cells)
      onSession id (Session.leave (some B.thread))
      onSession id (Session.raiseFailure f)
      setControl (.script id) : Act Unit) fun _ => Turned π Ss := fun f =>
    .bind (leads_still fun J hJ => calm_onSession hJ fun s =>
      Session.still_freeAll (Session.gentle_calm s) cells s (.refl s)) fun _ => refuse f
  refine .bind (leads_still (look Session.calledHandle)) fun handle => ?_
  cases handle with
  | none => exact freed _
  | some handle =>
    refine .bind (leads_still (look fun s => s.pins.get? handle)) fun found => ?_
    cases found with
    | none => exact freed _
    | some callable =>
      refine .bind (leads_still fun J hJ => calm_retain hJ _) fun _ => ?_
      refine .bind (leads_attemptOn (.attempt_of_preserves
        (Session.still_unpackAll (Session.steady_on _ _).gentle cells)) (fun _ h => h.isOpen)
        (fun _ _ h => h.isOpen) fun _ _ h => h.isOpen) fun r => ?_
      cases r with
      | error f => exact .bind (leads_still fun J hJ => calm_release hJ _) fun _ => refuse f
      | ok vs =>
        refine .bind (leads_begin rfl (by simp)) fun _ => ?_
        exact leads_settle (S := (t, .host info upvalue []) :: S) (.serves (clean _ _ _ (Nat.lt_succ_self _)) deep ground nested)
          (leads_enterCallable callable vs (shift_update (.entered rfl)))

/-- A runtime that goes on where it was. -/
theorem leads_keep {P : World → Prop} (nested : Nested (π.told id) (π.noted id) ps (.under k B) (Ss id))
    (h : Leads P x fun _ => Mid π id ps (Session.Under (k, B)) Ss)
    (keeps : Preserves (fun w => w.control = .script id) x) :
    Leads (fun w => P w ∧ w.control = .script id) x fun _ => Turned π Ss := by
  intro w hw
  have after := leads_suspend nested .same _ (h w hw.1)
  have same : (setControl (.script id)).run (x.run w).2 = ((), (x.run w).2) := by
    have control := keeps w hw.2
    change ((), { (x.run w).2 with control := .script id }) = _
    rw [← control]
  rwa [same] at after

/-- A handle that a runtime lets go of is released while its hook runs. -/
theorem leads_releaseHandle (nested : Nested (π.told id) (π.noted id) ps (.under k B) (Ss id)) (target : Script.Value) :
    Leads (fun w => Mid π id ps (fun s => Session.Under (k, B) s
        ∧ s.machine.mode = .paused (.releasing target)) Ss w ∧ w.control = .script id)
      (releaseHandle id target) fun _ => Turned π Ss := by
  have paused : Session.Steady fun s => Session.Under (k, B) s
      ∧ s.machine.mode = .paused (.releasing target) := fun s s' h still =>
    ⟨Session.steady_under _ s s' h.1 still, still.machine.mode.trans h.2⟩
  have resumed : Leads (Mid π id ps (fun s => Session.Under (k, B) s
        ∧ s.machine.mode = .paused (.releasing target)) Ss) (onSession id Session.resume)
      fun _ => Mid π id ps (Session.Under (k, B)) Ss :=
    leads_onSession Session.leads_resume (fun _ h => h.1.isOpen) fun _ _ h => h.isOpen
  refine leads_keep nested ?_ ?_
  · refine .bind (.of_preserves (calm_onSession (steady_mid paused) fun s =>
      Session.still_takeHandle (Session.gentle_calm s) target s (.refl s))) fun handle => ?_
    cases handle with
    | none => exact resumed
    | some handle =>
      refine .bind (leads_ownerOf fun _ h => h.1.isOpen) fun owner => .given fun found => ?_
      subst found
      refine .bind ?_ fun _ => resumed
      refine .bind (leads_onSession Session.leads_enterHook (fun _ h => h.1.isOpen)
        fun _ _ h => h.2.isOpen) fun previous => leads_given fun same => ?_
      obtain rfl : previous = some B.thread := same
      have hooked : Steady (Mid π id ps (Session.Hooked (k, B) target) Ss) :=
        steady_mid (Session.steady_hooked (k, B) target)
      refine .bind (.of_preserves (calm_onSession hooked fun s =>
        Session.still_unpin (Session.gentle_calm s) handle s (.refl s))) fun callable => ?_
      refine .bind (.of_preserves (calm_release hooked _)) fun _ => ?_
      exact leads_onSession Session.leads_leaveHook (fun _ h => h.isOpen) fun _ _ h => h.1.isOpen
  · refine .bind control_onSession fun handle => ?_
    cases handle with
    | none => exact control_onSession
    | some handle =>
      refine .bind (.get_bind fun w h => control_onDirectory w h) fun owner =>
        .bind ?_ fun _ => control_onSession
      cases owner with
      | none => exact .pure _
      | some owner =>
        exact .bind control_onSession fun _ => .bind control_onSession fun _ =>
          .bind (control_release _) fun _ => control_onSession

/-- The step that waited for a script goes on. -/
theorem leads_finishScript (raised : Bool) (clean : π.Clean ps.length)
    (below : Nested (π.told id) (π.noted id) ps (.seated ((t, .host info upvalue operands) :: S)) (Ss id)) :
    Leads (Mid π id (.runs operands.length :: ps)
        (Session.On t ((t, .host info upvalue (new ++ operands)) :: S)) Ss)
      (finishScript id raised) fun _ => Turned π Ss := by
  refine .get_bind fun w mid => ?_
  obtain ⟨a, more, hw, ha, -⟩ := List.map_eq_cons_iff.mp mid.parts
  have about := Activity.about_of_part (show a.part id ≠ .apart by rw [ha]; simp)
  rw [ha] at about
  have error : Leads (Mid π id ps (Session.On t ((t, .host info upvalue (new ++ operands)) :: S)) Ss)
      (onSession id (Session.takeError operands.length))
      fun _ => Mid π id ps (Session.On t ((t, .host info upvalue operands) :: S)) Ss :=
    leads_onSession (Session.leads_takeError rfl) (fun _ h => h.isOpen) fun _ _ h => h.isOpen
  rw [hw]
  cases a with
  | step step waiting =>
    cases waiting with
    | executing i base =>
      cases about
      have finish : Leads (Mid π id ps (Session.On t ((t, .host info upvalue (new ++ operands)) :: S)) Ss)
          (finishExecuting id raised step operands.length) fun _ => Turned π Ss := by
        unfold finishExecuting
        cases raised with
        | true => exact error.bind fun f => leads_back below (leads_finishStep step _ fun _ => .same)
        | false =>
          exact .bind (leads_onSession (Session.leads_dropResults rfl) (fun _ h => h.isOpen) fun _ _ h => h.isOpen)
            fun _ => leads_back below (leads_finishStep step _ fun _ => .same)
      exact Leads.bind (leads_finishTop (by simp) clean) (fun _ => finish) w mid
    | calling i base outs c =>
      cases about
      have finish : Leads (Mid π id ps (Session.On t ((t, .host info upvalue (new ++ operands)) :: S)) Ss)
          (finishCalling id id raised step operands.length outs c) fun _ => Turned π Ss := by
        unfold finishCalling
        cases raised with
        | true =>
          exact error.bind fun f => .bind (leads_still fun J hJ => calm_releaseOutbound hJ _ _)
            fun _ => leads_back below (leads_finishCall step c _ fun _ => .same)
        | false =>
          refine .bind (leads_onSession (Session.leads_collectResults rfl) (fun _ h => h.isOpen) fun _ _ h => h.isOpen)
            fun cells => .bind (leads_still fun J hJ => calm_releaseOutbound hJ _ _) fun _ => ?_
          refine .bind (leads_still fun J hJ => calm_onSession hJ fun s =>
            Session.still_takeResults (Session.gentle_calm s) cells s (.refl s)) fun r => ?_
          cases r <;> exact leads_back below (leads_finishCall step c _ fun _ => .same)
      exact Leads.bind (leads_finishTop (by simp) clean) (fun _ => finish) w mid
    | _ => cases about
  | delivering d errand =>
    cases errand <;> simp [Activity.about?, Errand.part] at about
  | _ => cases about

/-- A session is taken off the session map and closed. -/
theorem leads_closeSession (isOpen : ∀ s, I s → s.isOpen = true) :
    Leads (Mid π id (.closes :: ps) I Ss) (closeSession id)
      fun _ => Mid π id (.closes :: ps) Session.Shut Ss := by
  intro w mid
  obtain ⟨s, hs, holds⟩ := mid.session
  obtain ⟨a, more, hw, ha, -⟩ := List.map_eq_cons_iff.mp mid.parts
  have about := Activity.about_of_part (show a.part id ≠ .apart by rw [ha]; simp)
  have closing : w.Closing id := ⟨a, hw ▸ List.mem_cons_self, Activity.closing_of_about (ha ▸ about)⟩
  let s' := (Session.finishClose.run s).2
  have shut : Session.Shut s' := Session.leads_finishClose s trivial
  have other : ∀ j, j ≠ id → (w.withSession id s').sessions[j]? = w.sessions[j]? :=
    fun j ne => getElem?_withSession_of_ne ne
  have own := getElem?_withSession_self w id s'
  have unnamed : ∀ e ∈ w.names, e.2 ≠ id := fun e he eq => by
    refine (mid.named e he).2 ?_
    rw [eq, mid.parts]
    exact List.mem_cons_self
  have closed : (closeSession id).run w = (((Session.finishClose.run s).1 : List CallableId),
      { w.withSession id s' with directory := ((Directory.remove id).run w.directory).2 }) := by
    rw [closeSession, stateM_run_bind]
    exact onSession_run_some (w := ((onDirectory (Directory.remove id)).run w).2) hs
  rw [closed]
  refine ⟨⟨fun j none => ?_, fun e he => ⟨?_, (mid.named e he).2⟩, mid.distinct, fun j u hu => ?_,
    mid.rooted, mid.routed.unlisted hs (isOpen s holds) shut.isOpen closing, mid.clean, mid.unborn⟩,
    ⟨s', own, shut⟩, mid.parts, fun j ne u hu => ?_⟩
  · by_cases here : j = id
    · rw [here] at none
      cases none.symm.trans own
    · exact mid.absent j ((other j here).symm.trans none)
  · exact (other _ (unnamed e he)).symm ▸ (mid.named e he).1
  · by_cases here : j = id
    · exact here ▸ mid.numbered id s hs
    · exact mid.numbered j u ((other j here).symm.trans hu)
  · exact mid.others j ne u ((other j ne).symm.trans hu)

/-- A session that is closed is dropped. -/
theorem leads_dismiss : Leads (Mid π id ps Session.Shut Ss) (onDirectory (Directory.dismiss id))
    fun _ w => w.directory.registrations[id]? = none ∧ Mid π id ps Session.Shut Ss w := by
  intro w mid
  obtain ⟨s, hs, shut⟩ := mid.session
  have closed : ¬ IsOpen w.sessions id := by
    rintro ⟨u, hu, isOpen⟩
    cases hs.symm.trans hu
    rw [shut.isOpen] at isOpen
    cases isOpen
  obtain ⟨routed, gone⟩ := mid.routed.dismissed closed
  exact ⟨gone, ⟨mid.absent, mid.named, mid.distinct, mid.numbered, mid.rooted, routed, mid.clean,
    mid.unborn⟩, ⟨s, hs, shut⟩,
    mid.parts, mid.others⟩

/-- A session whose finalizers have run is closed. -/
theorem leads_finishClose (isOpen : ∀ s, I s → s.isOpen = true) (apart : ∀ p ∈ ps, p = .apart)
    (empty : Ss id = []) (clean : π.Clean ps.length) :
    Leads (Mid π id (.closes :: ps) I Ss) (finishClose id) fun _ => Turned π Ss := by
  have shut := Session.steady_shut
  refine .bind (leads_closeSession isOpen) fun callables => ?_
  refine .bind (.of_preserves (calm_release (steady_mid shut) _)) fun _ => ?_
  refine leads_dismiss.bind fun _ => .get_bind fun w ⟨dropped, mid⟩ => ?_
  obtain ⟨a, more, hw, ha, -⟩ := List.map_eq_cons_iff.mp mid.parts
  have about := Activity.about_of_part (show a.part id ≠ .apart by rw [ha]; simp)
  rw [ha] at about
  rw [hw]
  cases a with
  | step step waiting =>
    cases waiting with
    | closing i =>
      have nests := Mid.nests (q := .shut) (mid.pop (by simp) clean fun _ => dropped) (.shut apart)
      rw [← empty, Function.update_eq_self] at nests
      exact leads_finishStep step _ (fun _ => .same) _ nests
    | _ => cases about
  | delivering d errand => cases errand <;> simp [Activity.about?, Errand.part] at about
  | _ => cases about

/-- A collection that came upon the host has ended. -/
theorem leads_finishSweep (clean : π.Clean ps.length)
    (below : Nested (π.told id) (π.noted id) ps (.seated ((t, .host info upvalue operands) :: S)) (Ss id)) :
    Leads (Mid π id (.sweeps :: ps) (Session.On t ((t, .host info upvalue operands) :: S)) Ss)
      finishSweep fun _ => Turned π Ss := by
  refine .get_bind fun w mid => ?_
  obtain ⟨a, more, hw, ha, -⟩ := List.map_eq_cons_iff.mp mid.parts
  have about := Activity.about_of_part (show a.part id ≠ .apart by rw [ha]; simp)
  rw [ha] at about
  rw [hw]
  cases a with
  | step step waiting => cases waiting <;> cases about
  | delivering d errand => cases errand <;> simp [Activity.about?, Errand.part] at about
  | sweeping i =>
    exact Leads.bind (leads_finishTop (by simp) clean)
      (fun _ => leads_back below (leads_setControl (fun _ => .same) rfl)) w mid
  | _ => cases about

theorem mode_of_pause {m : Script.Machine} {p : Script.Pause} (h : m.pause? = some p) :
    m.mode = .paused p := by
  unfold Script.Machine.pause? at h
  split at h
  · rename_i q mode
    rw [mode, Option.some.inj h]
  · cases h

/-- What a runtime that waits has come to is done. -/
theorem leads_attend (nested : Nested (π.told id) (π.noted id) ps (.under k B) (Ss id))
    (clean : ∀ p ps', ps = p :: ps' → π.Clean ps'.length) (pause : Script.Pause) :
    Leads (fun w => Mid π id ps (fun s => s.isOpen = true ∧ s.active = some B.thread
        ∧ s.machine.Goes (k, B) ∧ s.machine.pause? = some pause) Ss w ∧ w.control = .script id)
      (attend id pause) fun _ => Turned π Ss := by
  rintro w ⟨mid, control⟩
  obtain ⟨s, hs, isOpen, active, goes, pauses⟩ := mid.session
  have mode := mode_of_pause pauses
  have now : ∀ J : Session → Prop, J s → Mid π id ps J Ss w := fun J holds =>
    ⟨mid.toOrderly, ⟨s, hs, holds⟩, mid.parts, mid.others⟩
  obtain lies | answers := goes
  · have under : Session.Under (k, B) s := ⟨isOpen, active, lies⟩
    obtain rfl | ⟨target, rfl⟩ | rfl := lies.pause mode
    · exact leads_serve nested mid.above w (now _ ⟨under, mode⟩)
    · exact leads_releaseHandle nested target w ⟨now _ ⟨under, mode⟩, control⟩
    · exact leads_keep nested (leads_onSession Session.leads_collectGarbage (fun _ h => h.1.isOpen) fun _ _ h => h.isOpen)
        control_onSession w ⟨now _ ⟨under, mode⟩, control⟩
  · generalize eq : Ss id = callers at nested
    cases nested with
    | runs below =>
      obtain ⟨new, idle, came | ⟨came, -⟩⟩ := answers.idle_call
      · cases mode.symm.trans came
        exact leads_finishScript false (clean _ _ rfl) (eq ▸ below) w (now _ ⟨isOpen, active, idle⟩)
      · cases mode.symm.trans came
        exact leads_finishScript true (clean _ _ rfl) (eq ▸ below) w (now _ ⟨isOpen, active, idle⟩)
    | sweeps below =>
      obtain ⟨t, info, upvalue, operands, S, rfl⟩ := below.host
      obtain ⟨idle, came⟩ := answers.idle_sweep
      cases mode.symm.trans came
      exact leads_finishSweep (clean _ _ rfl) (eq ▸ below) w (now _ ⟨isOpen, active, idle⟩)
    | closes apart =>
      cases mode.symm.trans answers.mode_close
      exact leads_finishClose (fun _ h => h.1) apart eq (clean _ _ rfl) w mid

end World

end ScriptBridge.Host

import ScriptBridge.Proofs.Ventures

/-!
# ScriptBridge.Proofs.Responses

What a runtime of a side waits for.  The session map leads to its session in all and in our share, and
whatever is done then is done on that side.

Main facts:

* `Turn.ownsAt` — a runtime is led to its session;
* `Turn.attendsAt` — what a runtime waits for is done.
-/

namespace ScriptBridge.Host

open scoped CoreInstances

namespace Turn

open World

variable {α : Type} {T : Turn} {τ τ' : Sides} {w v : World} {id : SessionId} {head : Head} {K : Scene}

/-- A runtime of the side whose turn it is runs. -/
def Running (T : Turn) (id : SessionId) : Scene :=
  fun τ wa va c => c = .script id ∧ T.Over (.act T.side) unlent τ wa va c

theorem Running.rests {wa va : List Activity} {c : Control} (here : τ.session id = some T.side)
    (h : T.Running id τ wa va c) : T.Rests τ wa va c := ⟨_, h.2, h.1 ▸ .script here⟩

/-! ## Calls of host callables -/

/-- A session of a side takes a call. -/
theorem leads_receive (here : τ.session id = some T.side) :
    T.Leads τ (T.Over (.act T.side) unlent) (receive id) fun _ => T.Rests := by
  unfold receive
  refine .bind (keeps_onSession here fun _ => Session.keeper_enter) fun previous τ₁ le₁ => ?_
  have here := le₁.session _ _ here
  refine .bind (keeps_onSession here fun _ => Session.keeper_takeArguments) fun cells τ₂ le₂ => ?_
  have here := le₂.session _ _ here
  refine .bind (keeps_onSession here fun _ => .get_bind fun _ h => h) fun handle τ₃ le₃ => ?_
  have here := le₃.session _ _ here
  have refused : ∀ {τ : Sides} (f : Failure), τ.session id = some T.side →
      T.Leads τ (T.Over (.act T.side) unlent) (do
        onSession id (Session.freeAll cells)
        onSession id (Session.leave previous)
        onSession id (Session.raiseFailure f)
        setControl (.script id) : Act Unit) fun _ => T.Rests := fun f here =>
    .bind (keeps_onSession here fun _ => Session.keeper_freeAll cells) fun _ _ le =>
      leads_refuse (le.session _ _ here) previous f
  cases handle with
  | none => exact refused _ here
  | some handle =>
    have looked : T.Leads τ₃ (T.Over (.act T.side) unlent)
        (onSession id (do return (← get).pins.get? handle) : Act (Option CallableId))
        (With (fun _ r => ∀ f, r = some f → τ₃.mine T.side f) (T.Over (.act T.side) unlent)) :=
      leads_onSession here fun o => .get_bind fun s h => ⟨fun f hf => h.pins _ f hf, h⟩
    refine .bindWith looked fun r τ₄ le₄ known => ?_
    have here := le₄.session _ _ here
    cases r with
    | none => exact refused _ here
    | some f =>
      have mine := le₄.callable _ _ (known f rfl)
      refine .bind (keeps_retain mine) fun _ τ₅ le₅ => ?_
      have here := le₅.session _ _ here
      have mine := le₅.callable _ _ mine
      have unpacked : T.Leads τ₅ (T.Over (.act T.side) unlent) (attemptOn id (Session.unpackAll cells))
          (With (fun _ => OnOk fun vs => ∀ u ∈ vs, u.MadeBy id) (T.Over (.act T.side) unlent)) :=
        leads_attemptOn here fun _ => Session.keeper_unpackAll cells
      refine .bindWith unpacked fun r τ₆ le₆ made => ?_
      have here := le₆.session _ _ here
      have mine := le₆.callable _ _ mine
      cases r with
      | error e =>
        exact .bind (keeps_release fun c hc => List.mem_singleton.mp hc ▸ mine) fun _ _ le =>
          leads_refuse (le.session _ _ here) previous e
      | ok vs =>
        have begun : T.Leads τ₆ (T.Over (.act T.side) unlent) (begin (.serving id previous f))
            fun _ => T.Busy (.act T.side) (.serving id previous f) := leads_begin (.serving here mine)
        refine .bind begun fun _ _ le => ?_
        exact (leads_enterCallable (le.callable _ _ mine) fun u hu =>
          le.owns (Sides.owns_of_madeBy (made u hu) here)).mono (fun _ _ _ h => h.over)
              fun _ _ _ _ _ _ h => h

/-- A runtime that is led to its session is led to it in our share, too. -/
theorem ownsAt (h : T.Holds K τ w v) (here : τ.session id = some T.side) (isOpen : IsOpen w.sessions id)
    (found : ((ownerOf id).run w).1 = some id) :
    TracksAt T.side w v (ownerOf id) fun r w v => r = some id ∧ T.Holds K τ w v := by
  obtain ⟨twin, scene⟩ := h
  obtain ⟨⟨mapped, kept⟩, leads⟩ := Directory.leads_resolve (v.directory.address id) v.directory
    ⟨twin.mapped, .refl _⟩
  have same : T.side = true → ((ownerOf id).run v).1 = some id := fun ours => by
    obtain ⟨s, hs, open'⟩ := isOpen
    exact (leads id).mpr ⟨⟨s, (twin.session_ours ours here).trans hs, open'⟩, rfl⟩
  refine ⟨fun ours => (same ours).trans found.symm, found, ?_, ?_⟩
  · rw [follow]
    cases side : T.side with
    | false => exact .theirs { twin.toShare with } side
    | true =>
      exact { twin with
        mapped := mapped
        enrolled := fun j r hr => twin.enrolled j r (kept.registrations ▸ hr)
        address := kept.address.trans twin.address }
  · rw [follow]
    cases T.side <;> exact scene

/-- A call of a host callable is taken by the session whose runtime has called. -/
theorem servesAt (h : T.Holds (T.Over (.act T.side) unlent) τ w v) (here : τ.session id = some T.side)
    (isOpen : IsOpen w.sessions id) (found : ((ownerOf id).run w).1 = some id) :
    TracksAt T.side w v (serve id) (T.After τ fun _ => T.Rests) := by
  unfold serve
  refine (ownsAt h here isOpen found).bind fun r w v ⟨led, h⟩ => ?_
  rw [led]
  exact leads_receive here w v h

/-! ## Hooks -/

/-- A session that is worked on stays open. -/
theorem isOpen_onSession [Inhabited α] {op : Op α} (isOpen : IsOpen w.sessions id)
    (same : ∀ s, (op.run s).2.isOpen = s.isOpen) : IsOpen ((onSession id op).run w).2.sessions id := by
  obtain ⟨s, hs, open'⟩ := isOpen
  rw [onSession_run_some hs]
  exact ⟨(op.run s).2, by simp [World.withSession], (same s).trans open'⟩

theorem leads_releasePin {handle : Handle} (here : τ.session id = some T.side) :
    T.Keeps τ K (releasePin handle id) := by
  unfold releasePin
  refine .bind (keeps_onSession here fun _ => Session.keeper_enter) fun previous τ₁ le₁ => ?_
  have here := le₁.session _ _ here
  have unpinned : T.Leads τ₁ K (onSession id (Session.unpin handle))
      (With (fun _ r => ∀ f, r = some f → τ₁.mine T.side f) K) :=
    leads_onSession here fun _ => Session.keeper_unpin handle
  refine .bindWith unpinned fun r τ₂ le₂ known => ?_
  have here := le₂.session _ _ here
  refine .bind (keeps_release fun c hc => ?_) fun _ τ₃ le₃ =>
    keeps_onSession (le₃.session _ _ here) fun _ => Session.keeper_leave previous
  obtain ⟨f, hf, rfl⟩ := List.mem_map.mp hc
  exact le₂.callable _ _ (known f (Option.mem_toList.mp hf))

/-- The pin of a handle whose userdata is finalized is released on the side of its session. -/
theorem releasesAt {target : Script.Value} (h : T.Holds (T.Running id) τ w v)
    (here : τ.session id = some T.side) (isOpen : IsOpen w.sessions id)
    (found : ((ownerOf id).run ((onSession id (Session.takeHandle target)).run w).2).1 = some id) :
    TracksAt T.side w v (releaseHandle id target) (T.After τ fun _ => T.Rests) := by
  have resumed : ∀ {τ : Sides}, τ.session id = some T.side →
      T.Leads τ (T.Running id) (onSession id Session.resume) fun _ => T.Rests := fun here =>
    (keeps_onSession here fun _ => Session.keeper_modifyMachine _).mono (fun _ _ _ h => h)
      fun _ _ le _ _ _ h => h.rests (le.session _ _ here)
  have took : T.Leads τ (T.Running id) (onSession id (Session.takeHandle target)) fun _ =>
      T.Running id :=
    keeps_onSession here fun _ => Session.keeper_takeHandle target
  unfold releaseHandle
  refine (took w v h).known.bind fun r w' v' ⟨⟨_, whole⟩, τ₁, le₁, h⟩ => ?_
  have here := le₁.session _ _ here
  suffices goes : TracksAt T.side w' v' _ (T.After τ₁ fun _ => T.Rests) from
    goes.mono fun _ _ _ after => after.le le₁
  cases r with
  | none => exact resumed here w' v' h
  | some handle =>
    have isOpen : IsOpen w'.sessions id :=
      whole ▸ isOpen_onSession isOpen fun s => by cases target <;> rfl
    refine (ownsAt h here isOpen (whole ▸ found)).bind fun r w v ⟨led, h⟩ => ?_
    rw [led]
    exact Leads.bind (leads_releasePin here) (fun _ _ le => resumed (le.session _ _ here)) w v h

/-! ## Steps that waited -/

theorem leads_finishExecuting {raised : Bool} {step : Step} {base : Nat} {body : Option Bool}
    (suits : step.Suits body T.side) (here : τ.session id = some T.side) :
    T.Leads τ (T.At body unlent) (finishExecuting id raised step base) fun _ => T.Rests := by
  unfold finishExecuting
  split
  · exact .bind (keeps_onSession here fun _ => Session.keeper_takeError base) fun _ _ _ =>
      leads_finishStep suits _
  · exact .bind (keeps_onSession here fun _ => Session.keeper_dropResults base) fun _ _ _ =>
      leads_finishStep suits _

theorem leads_finishCalling {session : SessionId} {raised : Bool} {step : Step} {base : Nat}
    {outs : List Session.Outbound} {c : Calling} {body : Option Bool} (suits : step.Suits body T.side)
    (here : τ.session id = some T.side) (there : τ.session session = some T.side)
    (mine : c.Of T.ours τ body T.side) :
    T.Leads τ (T.At body (lends c)) (finishCalling id session raised step base outs c)
      fun _ => T.Rests := by
  unfold finishCalling
  split
  · refine .bind (keeps_onSession here fun _ => Session.keeper_takeError base) fun f _ le => ?_
    refine .bind (keeps_releaseOutbound outs (le.session _ _ there)) fun _ _ le' => ?_
    exact leads_finishCall suits ((le.trans le').calling mine) fun _ ok => by cases ok
  · refine .bind (keeps_onSession here fun _ => Session.keeper_collectResults base) fun cells _ le => ?_
    refine .bind (keeps_releaseOutbound outs (le.session _ _ there)) fun _ τ' le' => ?_
    have le := le.trans le'
    have taken : T.Leads τ' (T.At body (lends c)) (attemptOn id (Session.takeResults cells))
        (With (fun _ => OnOk fun vs => ∀ u ∈ vs, u.MadeBy id) (T.At body (lends c))) :=
      leads_attemptOn (le.session _ _ here) fun _ => Session.keeper_takeResults cells
    refine .bindWith taken fun r τ'' le' made => ?_
    have le := le.trans le'
    cases r with
    | error f => exact leads_finishCall suits (le.calling mine) fun _ ok => by cases ok
    | ok vs =>
      refine leads_finishCall suits (le.calling mine) fun us ok u hu => ?_
      cases ok
      exact Sides.owns_of_madeBy (made u hu) (le.session _ _ here)

/-- The step of a side that waited for a runtime goes on. -/
theorem leads_finishScript {raised : Bool} (here : τ.session id = some T.side) :
    T.Leads τ (T.Over (.act T.side) unlent) (finishScript id raised) fun _ => T.Rests := by
  intro w v ⟨twin, scene⟩
  obtain ⟨head, a, w', v', hw, hv, of, below⟩ := Stacks.of_act scene
  have busy : T.Holds (T.Busy head a) τ w v := ⟨twin, w', v', hw, hv, of, below⟩
  have goes : TracksAt T.side w v (setControl .proceed) (T.After τ fun _ => T.Rests) :=
    leads_setControl_rests .proceed w v ⟨twin, scene⟩
  unfold finishScript
  refine .get (fun ours => ?_) ?_
  · rw [hw, hv, ours]
    cases of <;> rfl
  · rw [hw]
    cases of with
    | executing suits there =>
      exact Leads.bind leads_finishTop (fun _ _ le => .given fun _ =>
        leads_finishExecuting suits (le.session _ _ here)) w v busy
    | calling suits there mine =>
      exact Leads.bind leads_finishTop (fun _ _ le => .given fun _ => leads_finishCalling suits
        (le.session _ _ here) (le.session _ _ there) (le.calling mine)) w v busy
    | _ => exact goes

/-- A collection of a side that came upon the host ends. -/
theorem leads_finishSweep : T.Leads τ (T.Over (.act T.side) unlent) finishSweep fun _ => T.Rests := by
  intro w v ⟨twin, scene⟩
  obtain ⟨head, a, w', v', hw, hv, of, below⟩ := Stacks.of_act scene
  have busy : T.Holds (T.Busy head a) τ w v := ⟨twin, w', v', hw, hv, of, below⟩
  have goes : TracksAt T.side w v (setControl .proceed) (T.After τ fun _ => T.Rests) :=
    leads_setControl_rests .proceed w v ⟨twin, scene⟩
  unfold finishSweep
  refine .get (fun ours => ?_) ?_
  · rw [hw, hv, ours]
    cases of <;> rfl
  · rw [hw]
    cases of with
    | sweeping _ there =>
      exact Leads.bind leads_finishTop (fun _ _ _ => .given fun _ =>
        leads_setControl_rests .proceed) w v busy
    | _ => exact goes

/-! ## The end of a session -/

/-- A session of a side is closed, and off the map in our share if it is one of ours. -/
theorem closesAt (h : T.Holds K τ w v) (here : τ.session id = some T.side)
    (isOpen : IsOpen w.sessions id) :
    TracksAt T.side w v (closeSession id) fun fs w v => (∀ f ∈ fs, τ.mine T.side f)
      ∧ (T.side = true → ¬ IsOpen v.sessions id) ∧ T.Holds K τ w v := by
  obtain ⟨twin, scene⟩ := h
  obtain ⟨s, hs, open'⟩ := isOpen
  obtain ⟨mine, keeper⟩ := Session.keeper_finishClose s (twin.sessions.holds hs here)
  have run : ∀ w : World, w.sessions[id]? = some s →
      (closeSession id).run w = ((Session.finishClose.run s).1,
      { w.withSession id (Session.finishClose.run s).2 with
        directory := ((Directory.remove id).run w.directory).2 }) := fun w hs => by
    rw [closeSession, stateM_run_bind]
    exact onSession_run_some (w := ((onDirectory (Directory.remove id)).run w).2) hs
  refine .of_run _ _ _ (run w hs) (fun ours => run v ((twin.session_ours ours here).trans hs))
      ⟨mine, ?_, ?_, ?_⟩
  · intro ours
    rw [if_pos ours]
    rintro ⟨u, hu, open''⟩
    rw [show World.sessions _ = (v.withSession id (Session.finishClose.run s).2).sessions from rfl,
      getElem?_withSession_self] at hu
    rw [← Option.some.inj hu, keeper.isOpen] at open''
    cases open''
  · refine twin.withDirectory here (keeper.isOpen.symm ▸ keeper) _ _ fun ours => ?_
    have isOpen : IsOpen v.sessions id := ⟨s, (twin.session_ours ours here).trans hs, open'⟩
    obtain ⟨mapped, kept⟩ := Directory.leads_remove (fun j hj same => twin.mapped.apart hj isOpen same)
      v.directory ⟨twin.mapped, .refl _⟩
    refine ⟨mapped.congr fun j => ?_, fun j r hr => twin.enrolled j r (kept.registrations ▸ hr),
      kept.address.trans twin.address⟩
    rw [isOpen_withSession, keeper.isOpen]
    simp [and_comm]
  · cases T.side <;> exact scene

/-- A session of a side that is closed is dropped. -/
theorem dismissesAt (h : T.Holds K τ w v) (closed : T.side = true → ¬ IsOpen v.sessions id) :
    TracksAt T.side w v (onDirectory (Directory.dismiss id) : Act Unit) (T.After τ fun _ => K) := by
  obtain ⟨twin, scene⟩ := h
  refine .of_run () _ _ rfl (fun _ => rfl) ⟨τ, .refl T.side τ, ?_, ?_⟩
  · cases side : T.side with
    | false => exact .theirs { twin.toShare with } side
    | true =>
      obtain ⟨mapped, same, -, kept⟩ := Directory.leads_dismiss (closed side) v.directory
        ⟨twin.mapped, .refl _⟩
      exact { twin with
        mapped := mapped
        enrolled := fun j r hr => twin.enrolled j r (kept j r hr).2
        address := same.address.trans twin.address }
  · cases T.side <;> exact scene

/-- The closing of a session of a side ends. -/
theorem finishesCloseAt (h : T.Holds (T.Over (.act T.side) unlent) τ w v)
    (here : τ.session id = some T.side) (isOpen : IsOpen w.sessions id) :
    TracksAt T.side w v (finishClose id) (T.After τ fun _ => T.Rests) := by
  unfold finishClose
  refine (closesAt h here isOpen).bind fun fs w v done => ?_
  obtain ⟨mine, closed, h⟩ := done
  have chores : ∀ c ∈ fs.map Chore.callable, ChoreOf τ T.side c := by
    intro c hc
    obtain ⟨f, hf, rfl⟩ := List.mem_map.mp hc
    exact mine f hf
  -- what is let go of opens no session
  have released : TracksAt T.side w v (release (fs.map Chore.callable)) fun r w v =>
      (T.side = true → ¬ IsOpen v.sessions id)
        ∧ T.After τ (fun _ => T.Over (.act T.side) unlent) r w v := by
    obtain ⟨same, after⟩ := keeps_release chores w v h
    refine ⟨same, fun ours => ?_, after⟩
    rw [follow, if_pos ours, isOpen_calm (calm_release (steady_calm v) _ v (.refl v))]
    exact closed ours
  refine released.bind fun _ w v done => ?_
  obtain ⟨closed, τ₁, le, h⟩ := done
  have here := le.session _ _ here
  suffices goes : TracksAt T.side w v _ (T.After τ₁ fun _ => T.Rests) from
    goes.mono fun _ _ _ after => after.le le
  refine bindAt (dismissesAt h closed) fun _ τ₂ _ w v h => ?_
  obtain ⟨twin, scene⟩ := h
  obtain ⟨head, a, w', v', hw, hv, of, below⟩ := Stacks.of_act scene
  have busy : T.Holds (T.Busy head a) τ₂ w v := ⟨twin, w', v', hw, hv, of, below⟩
  refine .get (fun ours => ?_) ?_
  · rw [hw, hv, ours]
    cases of <;> rfl
  · rw [hw]
    cases of with
    | closing suits there =>
      exact Leads.bind leads_finishTop (fun _ _ _ => .given fun _ => leads_finishStep suits _) w v busy
    | _ => exact leads_setControl_rests .proceed w v ⟨twin, scene⟩

/-! ## Whatever a runtime waits for -/

/-- What a runtime of a side waits for is done on that side, if the runtime is led to its session. -/
theorem attendsAt (h : T.Holds (T.Running id) τ w v) (here : τ.session id = some T.side)
    (isOpen : IsOpen w.sessions id) (found : ((ownerOf id).run w).1 = some id)
    (found' : ∀ target,
      ((ownerOf id).run ((onSession id (Session.takeHandle target)).run w).2).1 = some id)
    (pause : Script.Pause) : TracksAt T.side w v (attend id pause) (T.After τ fun _ => T.Rests) := by
  have held : T.Holds (T.Over (.act T.side) unlent) τ w v := ⟨h.1, h.2.2⟩
  cases pause with
  | invoked => exact servesAt held here isOpen found
  | releasing target => exact releasesAt h here isOpen (found' target)
  | collecting =>
    have goes : T.Leads τ (T.Running id) (onSession id Session.collectGarbage) fun _ => T.Rests :=
      (keeps_onSession here fun _ => Session.keeper_collectGarbage).mono (fun _ _ _ h => h)
        fun _ _ le _ _ _ h => Running.rests (le.session _ _ here) h
    exact goes w v h
  | returned => exact leads_finishScript here w v held
  | raised => exact leads_finishScript here w v held
  | closed => exact finishesCloseAt held here isOpen
  | swept => exact leads_finishSweep w v held

/-- Whether the runtime of a session is led to it when it has run for some steps. -/
def Led (id : SessionId) (w : World) : Prop := ∀ steps target,
  let w₁ := ((onSession id (Session.runMachine steps)).run w).2
  let w₂ := ((onSession id (Session.takeHandle target)).run w₁).2
  IsOpen w.sessions id ∧ ((ownerOf id).run w₁).1 = some id ∧ ((ownerOf id).run w₂).1 = some id

/-- A runtime of a side runs for some steps, and what it waits for then is done. -/
theorem runsAt (h : T.Holds (T.Running id) τ w v) (here : τ.session id = some T.side) (led : Led id w)
    (steps : Nat) {next : Option Script.Pause → Act Unit}
    (goes : ∀ {τ : Sides}, τ.session id = some T.side →
      T.Leads τ (T.Running id) (next none) fun _ => T.Rests)
    (attends : ∀ pause, next (some pause) = attend id pause) :
    TracksAt T.side w v (onSession id (Session.runMachine steps) >>= next)
      (T.After τ fun _ => T.Rests) := by
  have ran : T.Leads τ (T.Running id) (onSession id (Session.runMachine steps)) fun _ => T.Running id :=
    keeps_onSession here fun _ => Session.keeper_withMachine _
  refine (ran w v h).known.bind fun r w' v' ⟨⟨_, whole⟩, τ₁, le, h⟩ => ?_
  have here := le.session _ _ here
  suffices goes : TracksAt T.side w' v' (next r) (T.After τ₁ fun _ => T.Rests) from
    goes.mono fun _ _ _ after => after.le le
  cases r with
  | none => exact goes here w' v' h
  | some pause =>
    rw [attends]
    have isOpen : IsOpen w'.sessions id := whole ▸ isOpen_onSession (led steps .nil).1 fun _ => rfl
    exact attendsAt h here isOpen (whole ▸ (led steps .nil).2.1)
        (fun target => whole ▸ (led steps target).2.2)
      pause

theorem runScriptAt (h : T.Holds (T.Running id) τ w v) (here : τ.session id = some T.side)
    (led : Led id w) : TracksAt T.side w v (runScript id) (T.After τ fun _ => T.Rests) :=
  runsAt h here led slice (fun here => .pure fun _ _ _ h => h.rests here) fun _ => rfl

theorem interruptAt (h : T.Holds (T.Running id) τ w v) (here : τ.session id = some T.side)
    (led : Led id w) (steps budget : Nat) :
    TracksAt T.side w v (interrupt id steps budget) (T.After τ fun _ => T.Rests) :=
  runsAt h here led steps (fun here => (keeps_onSession here fun _ => Session.keeper_strike budget).mono
    (fun _ _ _ h => h) fun _ _ le _ _ _ h => Running.rests (le.session _ _ here) h) fun _ => rfl

/-- A collection of a side comes upon the host. -/
theorem leads_sweep (here : τ.session id = some T.side) (budget : Nat)
    (below : ∀ side, head = .act side → side = T.side) :
    T.Leads τ (fun τ wa va c => c = .proceed ∧ T.Over head unlent τ wa va c) (sweep id budget)
      fun _ => T.Rests := by
  unfold sweep
  refine .bind (keeps_onSession here fun _ => .get_bind fun _ h => h) fun can τ₁ le₁ => ?_
  have here := le₁.session _ _ here
  cases can with
  | true =>
    refine .bind (keeps_onSession here fun _ => Session.keeper_strike budget) fun _ τ₂ le₂ => ?_
    have here := le₂.session _ _ here
    have begun : T.Leads τ₂ (T.Over head unlent) (begin (.sweeping id)) fun _ =>
        T.Busy head (.sweeping id) :=
      leads_begin (.sweeping below here)
    refine .bind (begun.mono (fun _ _ _ h => h.2) fun _ _ _ _ _ _ h => h) fun _ _ le => ?_
    exact leads_setControl_script (le.session _ _ here)
  | false => exact .pure fun _ _ _ h => ⟨head, h.2, h.1 ▸ .proceed⟩

end Turn

end ScriptBridge.Host

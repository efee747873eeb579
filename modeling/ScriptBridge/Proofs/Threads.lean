import ScriptBridge.Proofs.Handovers

/-!
# ScriptBridge.Proofs.Threads

The thread that host operations run on.  A history of a run notes, for every session, on which
coroutine each host callable in progress was called: `World.callers`.  The thread that is active is
the latest of them, or the main thread, at every point of every run, and while a release hook runs
it is the one that the hook runs on.

Main facts:

* `World.nests_run` — at every point of a run the sessions stand as the activities say;
* `active_run` — the thread that is active.
-/

namespace ScriptBridge.Host

open Script (Spine Wait ThreadId)

/-- Whether an activity is a call of a host callable from a session. -/
def Activity.callsFrom (id : SessionId) : Activity → Bool
  | .serving session _ _ => session == id
  | .delivering d (.results _ _) => d.session == id
  | _ => false

theorem Activity.callsFrom_eq (id : SessionId) (a : Activity) :
    a.callsFrom id = (a.part id).isCall := by
  cases a with
  | step s waiting =>
    cases waiting <;> simp only [callsFrom, part, about?] <;> try split
    all_goals rfl
  | delivering d errand =>
    cases errand <;> simp only [callsFrom, part, about?, Errand.part] <;> split <;> simp_all [Part.isCall]
  | serving session previous callable =>
    simp only [callsFrom, part, about?]
    split <;> simp_all [Part.isCall]
  | sweeping session =>
    simp only [callsFrom, part, about?]
    split <;> rfl
  | _ => rfl

namespace World

variable {π : Past} {w : World} {id : SessionId} {r : Option SessionId} {s : Session}
  {Ss : SessionId → List Spine}

/-- How many host callables that were called from a session are in progress. -/
def calls (w : World) (id : SessionId) : Nat := w.activities.countP (Activity.callsFrom id)

/-- The coroutine that a runtime is in. -/
def coroutine (w : World) (id : SessionId) : ThreadId :=
  (w.sessions[id]?.map fun s => s.machine.current).getD Script.Machine.main

/-- The coroutines from which the host callables of a session in progress after so many turns were
called, the innermost first.  When a call begins, the coroutine that the runtime is in is noted;
when one ends, the latest note is dropped. -/
def callers (w : World) (id : SessionId) : Nat → List ThreadId
  | 0 => []
  | n + 1 =>
    if (w.run n).calls id < (w.run (n + 1)).calls id then
      (w.run (n + 1)).coroutine id :: w.callers id n
    else if (w.run (n + 1)).calls id < (w.run n).calls id then (w.callers id n).tail
    else w.callers id n

/-! ## Runs -/

/-- A world that has not begun stands as its activities say. -/
theorem nests_start (address : SessionId → Address) (program : List Step) (whims : List Whim)
    (former : π.former = World.startAt address program whims) (address_eq : π.address = address) (closed : ∀ id, ¬ π.closed id) (gone : ∀ f, ¬ π.gone f)
    (free : ∀ id i S, π.noted id i S) :
    Nests π none (fun _ => []) (World.startAt address program whims) := by
  have none : ∀ id : SessionId, (World.startAt address program whims).sessions[id]? = none :=
    fun id => by simp [World.startAt]
  have shut : ∀ id : SessionId, ¬ IsOpen (World.startAt address program whims).sessions id := by
    rintro id ⟨s, hs, -⟩
    cases (none id).symm.trans hs
  have routed : (World.startAt address program whims).Routed π := {
    ages := former ▸ .refl _
    address := address_eq.symm
    closed := fun id hid => absurd hid (closed id)
    gone := fun f hf => absurd hf (gone f)
    living := by simp [Living, World.startAt]
    mapped := (Directory.sound_new address).congr fun id => ⟨False.elim, shut id⟩
    enrolled := fun id r hr => by simp [World.startAt, Directory.new] at hr
    found := rfl }
  refine ⟨⟨fun id _ => ⟨fun p hp => ?_, rfl⟩, fun e he => ?_, List.nodup_nil, fun id s hs => ?_,
    fun a ha => ?_, routed, fun id i S _ => free id i S, fun id _ => free id⟩, fun id s hs => ?_,
    fun id eq => ?_⟩
  · exact List.mem_singleton.mp hp
  · cases he
  · cases (none id).symm.trans hs
  · cases ha
  · cases (none id).symm.trans hs
  · cases eq

/-- There are as many callers as calls in progress. -/
theorem Nests.calls (h : w.Nests π r Ss) (id : SessionId) : (Ss id).length = w.calls id := by
  have parts : w.calls id = (w.parts id).countP Part.isCall := by
    rw [World.calls, World.parts, List.countP_map]
    exact List.countP_congr fun a _ => by rw [Activity.callsFrom_eq]; rfl
  rw [parts]
  cases hs : w.sessions[id]? with
  | none =>
    obtain ⟨all, empty⟩ := h.absent id hs
    have none : Nested (π.told id) (π.noted id) (w.parts id) .shut [] := .shut all
    rw [empty, none.length]
  | some s =>
    obtain ⟨q, nested, -, -⟩ := h.lies id s hs
    exact nested.length

/-- The runtime of a session that host code runs on is in the coroutine of the latest caller, which
is not suspended and has not ended. -/
theorem Nests.current (h : w.Nests π r Ss) (hs : w.sessions[id]? = some s) (isOpen : s.isOpen = true)
    (other : r ≠ some id) :
    s.machine.current = ((Ss id).head?.map Spine.thread).getD Script.Machine.main
      ∧ ∃ t, s.machine.thread? s.machine.current = some t ∧ t.status = .active := by
  obtain ⟨q, nested, holds, seated⟩ := h.lies id s hs
  rw [decide_eq_false other] at seated
  cases q with
  | seated S =>
    obtain ⟨t, info, upvalue, operands, S, rfl⟩ := nested.host
    have on : Session.On t _ s := holds
    refine ⟨on.current.trans nested.thread, ?_⟩
    obtain ⟨⟨S', stacked, -⟩, -⟩ := on.idle
    exact (stacked.waits.active stacked.main).1
  | under k S => cases seated
  | shut => exact absurd rfl (holds.isOpen.mp isOpen)

/-- The thread that is active is that of the latest caller. -/
theorem Nests.active (h : w.Nests π r Ss) (hs : w.sessions[id]? = some s) :
    s.active = if s.isOpen then
      some (((Ss id).head?.map Spine.thread).getD Script.Machine.main) else none := by
  obtain ⟨q, nested, holds, -⟩ := h.lies id s hs
  rw [← nested.thread]
  cases q with
  | seated S => rw [if_pos (Session.On.isOpen holds), Session.On.active holds]; rfl
  | under k S => rw [if_pos (Session.Under.isOpen holds), Session.Under.active holds]; rfl
  | shut => rw [if_neg (by rw [Session.Shut.isOpen holds]; simp), Session.Shut.active holds]

/-- At every point of a run the sessions stand as the activities say, and the callers are those that
were noted, if the runtimes that are there always have different addresses and the run is told of
the values that it hands over. -/
theorem nests_along {w₀ : World} (start : w₀.Nests π w₀.control.script? fun _ => [])
    (free : ∀ id i S, π.noted id i S) (clear : ∀ n, (w₀.run n).Clear π)
    (tells : ∀ n Ss, (w₀.run n).Nests π (w₀.run n).control.script? Ss →
      (w₀.run n).control = .proceed →
      (∀ id budget, (w₀.run n).whims.headD .pass ≠ .upon id budget) → (w₀.run n).Tells π) (n : Nat) :
    ∃ Ss, Nests π (w₀.run n).control.script? Ss (w₀.run n)
      ∧ ∀ id, w₀.callers id n = (Ss id).map Spine.thread := by
  induction n with
  | zero => exact ⟨fun _ => [], start, fun _ => rfl⟩
  | succ n ih =>
    obtain ⟨Ss, h, noted⟩ := ih
    obtain ⟨same, -⟩ | next := run_succ n w₀
    · refine ⟨Ss, same ▸ h, fun id => ?_⟩
      rw [callers, same, if_neg (Nat.lt_irrefl _), if_neg (Nat.lt_irrefl _)]
      exact noted id
    · obtain ⟨Ss', h', shift⟩ := turned_advance h (.inl (.inl fun id i S _ => free id i S))
        (tells n Ss h) (next ▸ clear (n + 1))
      rw [← next] at h' shift
      refine ⟨Ss', h', fun id => ?_⟩
      rw [callers, ← h.calls, ← h'.calls, noted]
      have shift := shift id
      generalize before : Ss id = Cs at shift
      generalize after : Ss' id = Cs' at shift
      cases shift with
      | same => rw [if_neg (Nat.lt_irrefl _), if_neg (Nat.lt_irrefl _)]
      | left =>
        rw [List.length_cons, if_neg (by omega), if_pos (Nat.lt_succ_self _)]
        rfl
      | @entered S _ waits =>
        rw [List.length_cons, if_pos (Nat.lt_succ_self _), List.map_cons]
        congr 1
        -- the session is there and open, because calls from it are in progress
        cases hs : (w₀.run (n + 1)).sessions[id]? with
        | none => rw [(h'.absent id hs).2] at after; cases after
        | some s =>
          have isOpen : s.isOpen = true := by
            obtain ⟨q, nested, holds, -⟩ := h'.lies id s hs
            refine holds.isOpen.mpr ?_
            rintro rfl
            rw [nested.apart_of_shut.2] at after
            cases after
          have current := (h'.current hs isOpen (of_decide_eq_false waits)).1
          rw [after] at current
          rw [coroutine, hs]
          exact current

/-- What has become of things in a run that has just begun. -/
def past (program : List Step) (whims : List Whim) : Past where
  former := World.start program whims
  address := fun id => id
  closed := fun _ => False
  gone := fun _ => False
  told := (World.start program whims).HasBeen
  noted := fun _ _ _ => True

theorem nests_run (program : List Step) (whims : List Whim) (n : Nat) :
    ∃ Ss, Nests (past program whims) ((World.start program whims).run n).control.script? Ss
        ((World.start program whims).run n)
      ∧ ∀ id, (World.start program whims).callers id n = (Ss id).map Spine.thread :=
  nests_along (nests_start (fun id => id) program whims rfl rfl (fun _ h => h) (fun _ h => h)
      fun _ _ _ => trivial) (fun _ _ _ => trivial) (fun _ _ _ _ _ same => same)
    (fun n _ h proceeds calm => tells_run rfl (books_run program whims n) h proceeds calm) n

/-! ## Runtimes that come back, and hooks -/

/-- A runtime that has come back to the host is in the coroutine that is active. -/
theorem Nests.comesBack (h : w.Nests π (some id) Ss) {steps : Nat} {pause : Script.Pause} {w₁ : World}
    (ran : (onSession id (Session.runMachine steps)).run w = (some pause, w₁))
    (hs : w₁.sessions[id]? = some s)
    (back : pause = .returned ∨ pause = .raised ∨ pause = .swept) :
    s.active = some s.machine.current
      ∧ ∃ t, s.machine.thread? s.machine.current = some t ∧ t.status = .active := by
  obtain ⟨k, B, nested, mid⟩ := h.mid_script
  generalize w.parts id = ps at nested mid
  have after := mid.onSession (Session.leads_runMachine steps) (fun _ h => h.isOpen) fun _ _ h => h.1
  rw [ran] at after
  obtain ⟨u, hu, -, active, goes, pauses⟩ := after.session
  cases hs.symm.trans hu
  have mode := mode_of_pause pauses
  have idle : ∀ {S : Spine}, s.machine.Idle S → S.thread = B.thread →
      s.active = some s.machine.current
        ∧ ∃ t, s.machine.thread? s.machine.current = some t ∧ t.status = .active := by
    intro S idle thread
    obtain ⟨info, upvalue, operands, S', rfl⟩ := idle.cons
    obtain ⟨⟨S'', stacked, -⟩, -⟩ := idle
    exact ⟨by rw [active, ← thread]; rfl, (stacked.waits.active stacked.main).1⟩
  obtain lies | answers := goes
  · obtain rfl | ⟨target, rfl⟩ | rfl := lies.pause mode <;> simp at back
  · generalize Ss id = callers at nested
    cases nested with
    | runs below =>
      obtain ⟨new, here, -⟩ := answers.idle_call
      exact idle here rfl
    | sweeps below =>
      obtain ⟨t, info, upvalue, operands, S, rfl⟩ := below.host
      exact idle answers.idle_sweep.1 rfl
    | closes apart =>
      cases mode.symm.trans answers.mode_close
      simp at back

/-- While the hook of a runtime releases a handle, host operations run on the coroutine that the
hook runs on, however much has been let go of.  All other sessions are as before. -/
theorem Nests.hook (h : w.Nests π (some id) Ss) {steps : Nat} {target : Script.Value}
    {handle : Handle} {w₁ w₂ : World}
    (ran : (onSession id (Session.runMachine steps)).run w = (some (.releasing target), w₁))
    (took : (onSession id (Session.takeHandle target)).run w₁ = (some handle, w₂))
    (cs : List Chore) (fuel : Nat) (j : SessionId)
    (hs : ((do
      let _ ← onSession id Session.enter
      let _ ← onSession id (Session.unpin handle)
      chores fuel cs : Act Unit).run w₂).2.sessions[j]? = some s) :
    s.active = if s.isOpen then some (if j = id then w₁.coroutine id
      else ((Ss j).head?.map Spine.thread).getD Script.Machine.main) else none := by
  obtain ⟨k, B, nested, mid⟩ := h.mid_script
  generalize w.parts id = ps at mid
  have after := mid.onSession (Session.leads_runMachine steps) (fun _ h => h.isOpen) fun _ _ h => h.1
  rw [ran] at after
  obtain ⟨u, hu, isOpen, active, goes, pauses⟩ := after.session
  have mode := mode_of_pause pauses
  have lies : u.machine.Over (k, B) := by
    obtain lies | answers := goes
    · exact lies
    · cases answers with
      | ended _ _ _ _ came => obtain came | ⟨came, -⟩ := came <;> cases mode.symm.trans came
      | swept _ came | closed came => cases mode.symm.trans came
  let c := w₁.coroutine id
  have current : u.machine.current = c := by
    change _ = (w₁.sessions[id]?.map fun s => s.machine.current).getD _
    rw [hu]
    rfl
  let paused : Session → Prop := fun s => (Session.Under (k, B) s
    ∧ s.machine.mode = .paused (.releasing target)) ∧ s.machine.current = c
  let hooked : Session → Prop := fun s => Session.Hooked (k, B) target s ∧ s.machine.current = c
  have steadyPaused : Session.Steady paused := fun s s' h still =>
    ⟨⟨Session.steady_under _ s s' h.1.1 still, still.machine.mode.trans h.1.2⟩,
      still.machine.current.trans h.2⟩
  have steadyHooked : Session.Steady hooked := fun s s' h still =>
    ⟨Session.steady_hooked _ _ s s' h.1 still, still.machine.current.trans h.2⟩
  have before : Mid π id ps paused Ss w₂ := by
    have taken : Preserves (Mid π id ps paused Ss) (onSession id (Session.takeHandle target)) :=
      calm_onSession (steady_mid steadyPaused) fun s =>
        Session.still_takeHandle (Session.gentle_calm s) target s (.refl s)
    have next := taken w₁ ⟨after.toOrderly, ⟨u, hu, ⟨⟨isOpen, active, lies⟩, mode⟩, current⟩, after.parts, after.others⟩
    rwa [took] at next
  have enters : Leads paused Session.enter fun _ => hooked := fun s h => by
    refine ⟨(Session.leads_enterHook s h.1).2, ?_⟩
    change (ite _ _ _ : Session).machine.current = c
    rw [if_pos h.1.1.isOpen]
    exact h.2
  have unpins : Preserves (Mid π id ps hooked Ss) (onSession id (Session.unpin handle)) :=
    calm_onSession (steady_mid steadyHooked) fun s =>
      Session.still_unpin (Session.gentle_calm s) handle s (.refl s)
  have goes := Leads.bind (leads_onSession enters (fun _ h => h.1.1.isOpen) fun _ _ h => h.1.isOpen)
    (fun _ => .bind (.of_preserves unpins) fun _ =>
      .of_preserves (calm_chores (steady_mid steadyHooked) fuel cs)) w₂ before
  by_cases here : j = id
  · subst here
    obtain ⟨s', hs', on, eq⟩ := goes.session
    cases hs.symm.trans hs'
    rw [if_pos on.isOpen, if_pos rfl, on.active, eq]
  · obtain ⟨q, nested, holds, -⟩ := goes.others j here s hs
    rw [if_neg here, ← nested.thread]
    cases q with
    | seated S => rw [if_pos (Session.On.isOpen holds), Session.On.active holds]; rfl
    | under k S => rw [if_pos (Session.Under.isOpen holds), Session.Under.active holds]; rfl
    | shut => rw [if_neg (by rw [Session.Shut.isOpen holds]; simp), Session.Shut.active holds]

end World

/-! ## The thread that is active -/

/-- At every point of every run, the thread that is active is the coroutine from which the
innermost host callable of the session in progress was called, or the main thread, and none if, and
only if, the session is closed; so it is the same again when what was called has ended.  While host
code runs this is the coroutine that the runtime is in.  A runtime that comes back to the host is
in it.  While a handle is released, it is the coroutine that the hook runs on. -/
theorem active_run (program : List Step) (whims : List Whim) (n : Nat) :
    let w₀ := World.start program whims
    let w := w₀.run n
    (∀ (id : SessionId) (s : Session), w.sessions[id]? = some s →
      (w₀.callers id n).length = w.calls id
      ∧ s.active = (if s.isOpen then some ((w₀.callers id n).headD Script.Machine.main) else none)
      ∧ (∀ (m : Nat) (s' : Session), (w₀.run m).sessions[id]? = some s' → s.isOpen → s'.isOpen →
          w₀.callers id m = w₀.callers id n → s'.active = s.active)
      ∧ (s.isOpen → w.control ≠ .script id →
          s.active = some s.machine.current
          ∧ ∃ t, s.machine.thread? s.machine.current = some t ∧ t.status = .active))
    ∧ (∀ (id : SessionId) (steps : Nat) (pause : Script.Pause) (w₁ : World), w.control = .script id →
      (World.onSession id (Session.runMachine steps)).run w = (some pause, w₁) →
      (∀ s : Session, w₁.sessions[id]? = some s →
        pause = .returned ∨ pause = .raised ∨ pause = .swept →
        s.active = some s.machine.current
        ∧ ∃ t, s.machine.thread? s.machine.current = some t ∧ t.status = .active)
      ∧ ∀ (target : Script.Value) (handle : Handle) (w₂ : World), pause = .releasing target →
        (World.onSession id (Session.takeHandle target)).run w₁ = (some handle, w₂) →
        ∀ (cs : List World.Chore) (fuel : Nat) (j : SessionId) (s : Session),
          ((do
            let _ ← World.onSession id Session.enter
            let _ ← World.onSession id (Session.unpin handle)
            World.chores fuel cs : Act Unit).run w₂).2.sessions[j]? = some s →
          s.active = if s.isOpen then some (if j = id then w₁.coroutine id
            else (w₀.callers j n).headD Script.Machine.main) else none) := by
  intro w₀ w
  obtain ⟨Ss, h, noted⟩ := World.nests_run program whims n
  have head : ∀ id, (w₀.callers id n).headD Script.Machine.main
      = ((Ss id).head?.map Spine.thread).getD Script.Machine.main := fun id => by
    rw [show w₀.callers id n = _ from noted id, List.headD_eq_head?_getD, List.head?_map]
  refine ⟨fun id s hs => ⟨?_, ?_, fun m s' hs' ho ho' same => ?_, fun isOpen other => ?_⟩,
    fun id steps pause w₁ control ran => ⟨fun s hs back => ?_,
      fun target handle w₂ releases took cs fuel j s hs => ?_⟩⟩
  · rw [show w₀.callers id n = _ from noted id, List.length_map]
    exact h.calls id
  · rw [head]
    exact h.active hs
  · obtain ⟨Ss', h', noted'⟩ := World.nests_run program whims m
    have same : (Ss' id).map Spine.thread = (Ss id).map Spine.thread :=
      (noted' id).symm.trans (same.trans (noted id))
    rw [h'.active hs', h.active hs, if_pos ho, if_pos ho', ← List.head?_map, same, List.head?_map]
  · have apart : w.control.script? ≠ some id := fun eq => other <| by
      cases control : w.control with
      | script j =>
        rw [control] at eq
        rw [Option.some.inj eq]
      | _ => rw [control] at eq; cases eq
    obtain ⟨current, active⟩ := h.current hs isOpen apart
    exact ⟨by rw [h.active hs, if_pos isOpen, current], active⟩
  · rw [show ((World.start program whims).run n).control = _ from control] at h
    exact h.comesBack ran hs back
  · rw [show ((World.start program whims).run n).control = _ from control] at h
    subst releases
    rw [head]
    exact h.hook ran took cs fuel j hs

/-- Calls a host function from a coroutine, and closes the session. -/
def threading : List Step := [
  .mk (.openSession "a" .standard) true true,
  .mk (.register "a" "h" (.mk "h" [] [] [] false true)) true true,
  .mk (.execute "a" "coroutine.wrap(h)()") true true,
  .mk (.closeSession "a") true true]

/-- The host function runs on the coroutine; the hook that releases its handle in the end runs on
the main thread. -/
theorem active_run_threading :
    (∃ s, ((World.start threading []).run 7).sessions[1]? = some s ∧ s.isOpen
      ∧ ((World.start threading []).run 7).control ≠ .script 1
      ∧ (World.start threading []).callers 1 7 = [1] ∧ s.active = some 1 ∧ s.machine.current = 1)
    ∧ ∃ target handle w₁ w₂, ((World.start threading []).run 11).control = .script 1
      ∧ (World.onSession 1 (Session.runMachine World.slice)).run ((World.start threading []).run 11)
        = (some (.releasing target), w₁)
      ∧ (World.onSession 1 (Session.takeHandle target)).run w₁ = (some handle, w₂)
      ∧ ∀ s : Session, ((do
          let _ ← World.onSession 1 Session.enter
          let _ ← World.onSession 1 (Session.unpin handle)
          World.chores 0 [] : Act Unit).run w₂).2.sessions[1]? = some s → s.isOpen →
        s.active = some 0 := by
  constructor
  · have there : ((World.start threading []).run 7).sessions[1]?.any (·.isOpen) = true := by
      decide +kernel
    obtain ⟨s, hs, isOpen⟩ := (Option.any_eq_true _ _).mp there
    have noted : (World.start threading []).callers 1 7 = [1] := by decide +kernel
    have control : ((World.start threading []).run 7).control ≠ .script 1 := by
      have proceeds : ((World.start threading []).run 7).control.script? = none := by
        decide +kernel
      intro eq
      rw [eq] at proceeds
      cases proceeds
    obtain ⟨-, active, -, runs⟩ := (active_run threading [] 7).1 1 s hs
    rw [noted, if_pos isOpen] at active
    refine ⟨s, hs, isOpen, control, noted, active, ?_⟩
    exact Option.some.inj ((runs isOpen control).1.symm.trans active)
  · have control : ((World.start threading []).run 11).control = .script 1 := by
      have scripts : ((World.start threading []).run 11).control.script? = some 1 := by
        decide +kernel
      cases control : ((World.start threading []).run 11).control with
      | script j =>
        rw [control] at scripts
        rw [Option.some.inj scripts]
      | _ => rw [control] at scripts; cases scripts
    have releases : ((World.onSession 1 (Session.runMachine World.slice)).run
        ((World.start threading []).run 11)).1 = some (.releasing (.userdata 3)) := by
      decide +kernel
    have coroutine : ((World.onSession 1 (Session.runMachine World.slice)).run
        ((World.start threading []).run 11)).2.coroutine 1 = 0 := by decide +kernel
    have takes : ((World.onSession 1 (Session.takeHandle (.userdata 3))).run
        ((World.onSession 1 (Session.runMachine World.slice)).run
          ((World.start threading []).run 11)).2).1 = some ⟨2, Nat.two_pos⟩ := by decide +kernel
    generalize ran : (World.onSession 1 (Session.runMachine World.slice)).run
      ((World.start threading []).run 11) = r₁ at releases coroutine takes ⊢
    obtain ⟨pause, w₁⟩ := r₁
    obtain rfl : pause = _ := releases
    generalize took : (World.onSession 1 (Session.takeHandle (.userdata 3))).run w₁ = r₂ at takes
    obtain ⟨handle, w₂⟩ := r₂
    obtain rfl : handle = _ := takes
    refine ⟨_, _, w₁, w₂, control, rfl, took, fun s hs isOpen => ?_⟩
    have active := ((active_run threading [] 11).2 1 World.slice _ w₁ control ran).2 _ _ w₂ rfl
      took [] 0 1 s hs
    rw [if_pos isOpen, if_pos rfl, show w₁.coroutine 1 = 0 from coroutine] at active
    exact active

end ScriptBridge.Host

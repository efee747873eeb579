import ScriptBridge.Proofs.Heights

/-!
# ScriptBridge.Proofs.Standing

How a session stands.  Host code runs `On` a thread of it; or the host waits, and the runtime goes
on `Under` it until it comes back; or the session is `Shut`.  An operation `Leads` from one to the
other.

Main facts:

* `Session.leads_enter` — host code that a runtime calls runs on the thread that called it;
* `Session.leads_returnResults`, `Session.leads_raiseFailure` — what called it goes on;
* `Session.leads_runMachine` — a runtime that runs comes back to where the host waits.
-/

namespace ScriptBridge

/-- The coroutine that the frame on top belongs to. -/
def Script.Spine.thread : Script.Spine → Script.ThreadId
  | [] => Script.Machine.main
  | (t, _) :: _ => t

namespace Session

open Script (Spine Wait FrameInfo Machine ThreadId)

variable {s s' : Session} {t t' : ThreadId} {S : Spine} {w : Wait × Spine} {info : FrameInfo}
  {upvalue : Script.Value} {operands new : List Script.Value}

/-! ## How a session stands -/

/-- Whether host code runs on a thread, and the frames are those of a spine. -/
structure On (t : ThreadId) (S : Spine) (s : Session) : Prop where
  isOpen : s.isOpen = true
  active : s.active = some t
  idle : s.machine.Idle S

/-- Whether the host waits for the runtime. -/
structure Under (w : Wait × Spine) (s : Session) : Prop where
  isOpen : s.isOpen = true
  active : s.active = some w.2.thread
  lies : s.machine.Over w

/-- Whether a session is closed. -/
structure Shut (s : Session) : Prop where
  isOpen : s.isOpen = false
  active : s.active = none
  frames : s.machine.frames = []

theorem steady_on (t : ThreadId) (S : Spine) : Steady (On t S) := fun _ _ h still =>
  ⟨still.isOpen.trans h.isOpen, still.active.trans h.active, h.idle.still still.machine⟩

theorem steady_under (w : Wait × Spine) : Steady (Under w) := fun _ _ h still =>
  ⟨still.isOpen.trans h.isOpen, still.active.trans h.active, h.lies.still still.machine⟩

theorem steady_shut : Steady Shut := fun _ _ h still =>
  ⟨still.isOpen.trans h.isOpen, still.active.trans h.active, still.machine.frames.trans h.frames⟩

/-- Host code may run where it was called. -/
theorem On.rests (h : On t ((t, .host info upvalue operands) :: S) s) : s.Rests := by
  obtain ⟨current, rest, -, frames, -, -⟩ := h.idle.top
  exact ⟨info, upvalue, operands, rest, frames, by rw [h.active, current]⟩

theorem On.current (h : On t' ((t, .host info upvalue operands) :: S) s) :
    s.machine.current = t := h.idle.top.1

theorem On.height (h : On t ((t, .host info upvalue operands) :: S) s) :
    s.height = operands.length := by
  rw [Session.height, h.active]
  exact congrArg List.length h.idle.operandsOf

theorem On.adds (h : On t ((t, .host info upvalue operands) :: S) s) (adds : s.Adds s' new) :
    On t ((t, .host info upvalue (new ++ operands)) :: S) s' :=
  ⟨adds.isOpen.trans h.isOpen, adds.active.trans h.active, h.idle.adds adds.machine⟩

/-! ## Operands -/

/-- What has been put on the host's frame, and the session without it. -/
theorem On.lower (h : On t ((t, .host info upvalue (new ++ operands)) :: S) s) :
    ∃ u, On t ((t, .host info upvalue operands) :: S) u ∧ u.Adds s new := by
  obtain ⟨rfl, rest, -, frames, -, -⟩ := h.idle.top
  refine ⟨{ s with machine := s.machine.setOperands s.machine.current operands },
    ⟨h.isOpen, h.active, h.idle.setOperands operands⟩, rfl, rfl, rfl, ?_⟩
  rw [Machine.setOperands_current frames]
  exact ⟨⟨rfl, rfl, rfl⟩, rfl, info, upvalue, operands, rest, rfl, frames⟩

/-- What goes down to where a session was leaves it where it was. -/
theorem leads_lower {α : Type} {x : Nat → Op α} (lowers : ∀ u : Session, u.Rests →
      u.active = some t → Leads u.Above (x u.height) fun _ => u.Still) {base : Nat}
    (all : base = operands.length) :
    Leads (On t ((t, .host info upvalue (new ++ operands)) :: S)) (x base)
      fun _ => On t ((t, .host info upvalue operands) :: S) := by
  intro s h
  obtain ⟨u, on, adds⟩ := h.lower
  have still := lowers u on.rests on.active s ⟨new, adds⟩
  rw [on.height, ← all] at still
  exact steady_on _ _ u _ on still

theorem leads_dropAbove {base : Nat} (all : base = operands.length) :
    Leads (On t ((t, .host info upvalue (new ++ operands)) :: S)) (dropAbove t base)
      fun _ => On t ((t, .host info upvalue operands) :: S) :=
  leads_lower (fun _ rests active => rests.leads_dropAbove active) all

theorem leads_collect {base : Nat} (all : base = operands.length) :
    Leads (On t ((t, .host info upvalue (new ++ operands)) :: S)) (collect t base)
      fun _ => On t ((t, .host info upvalue operands) :: S) :=
  leads_lower (fun _ rests active => rests.leads_collect active) all

theorem leads_takeArguments :
    Leads (On t ((t, .host info upvalue operands) :: S)) takeArguments
      fun _ => On t ((t, .host info upvalue []) :: S) := by
  have all : Leads (On t ((t, .host info upvalue (operands ++ [])) :: S)) (collect t 0)
      fun _ => On t ((t, .host info upvalue []) :: S) := leads_collect rfl
  rw [List.append_nil] at all
  refine .get_bind fun s h => ?_
  rw [h.current]
  exact all s h

theorem leads_takeError {base : Nat} (all : base = operands.length) :
    Leads (On t ((t, .host info upvalue (new ++ operands)) :: S)) (takeError base)
      fun _ => On t ((t, .host info upvalue operands) :: S) :=
  leads_lower (fun _ rests active => rests.leads_takeError active) all

theorem leads_dropResults {base : Nat} (all : base = operands.length) :
    Leads (On t ((t, .host info upvalue (new ++ operands)) :: S)) (dropResults base)
      fun _ => On t ((t, .host info upvalue operands) :: S) :=
  leads_lower (fun _ rests active => rests.leads_dropResults active) all

theorem leads_collectResults {base : Nat} (all : base = operands.length) :
    Leads (On t ((t, .host info upvalue (new ++ operands)) :: S)) (collectResults base)
      fun _ => On t ((t, .host info upvalue operands) :: S) :=
  leads_lower (fun _ rests active => rests.leads_collectResults active) all

theorem On.place (h : On t ((t, .host info upvalue operands) :: S) s) (out : Outbound) :
    On t ((t, .host info upvalue (s.valueOf out :: operands)) :: S) ((place t out).run s).2 := by
  have placed := h.rests.place out
  rw [h.current] at placed
  exact h.adds placed

theorem On.build (h : On t ((t, .host info upvalue operands) :: S) s) (pin : Handle) :
    On t ((t, .host info upvalue (.native s.machine.natives.size :: operands)) :: S)
      ((build t pin).run s).2 := by
  have built := h.rests.build pin
  rw [h.current] at built
  exact h.adds built

/-- The key and the value of an assignment go away. -/
theorem leads_finishAssign {v key table : Script.Value} :
    Leads (On t ((t, .host info upvalue (v :: key :: table :: operands)) :: S)) (finishAssign t)
      fun _ s => ∃ new, On t ((t, .host info upvalue (new ++ operands)) :: S) s := by
  intro s h
  have above : On t ((t, .host info upvalue ([v, key, table] ++ operands)) :: S) s := h
  obtain ⟨u, on, adds⟩ := above.lower
  obtain ⟨new, above⟩ := on.rests.leads_finishAssign on.active s ⟨v, key, table, adds⟩
  exact ⟨new, on.adds above⟩

/-! ## What the host begins -/

theorem leads_startCall {f : Script.Value} {count : Nat} (all : new.length = count) :
    Leads (On t ((t, .host info upvalue (new ++ f :: operands)) :: S)) (startCall count)
      fun _ => Under (.call, (t, .host info upvalue operands) :: S) := by
  intro s h
  subst all
  exact ⟨h.isOpen, h.active, h.idle.startCall⟩

/-- A snippet that is read is run; the error of one that is not is taken off the host's frame. -/
theorem leads_beginExecute (source : String) :
    Leads (On t ((t, .host info upvalue operands) :: S)) (beginExecute source).run
      (Outcome (fun _ => On t ((t, .host info upvalue operands) :: S))
        fun _ => Under (.call, (t, .host info upvalue operands) :: S)) := by
  intro s h
  have awake : thread.run.run s = (.ok t, s) := by rw [thread_run, h.active]; rfl
  obtain ⟨loaded, x, m, load, adds, -⟩ := h.rests.load h.active source.toUTF8 s.chunk
  have run : (withMachine fun m => m.load t source.toUTF8 s.chunk : Op Bool).run s
      = (loaded, { s with machine := m }) :=
    Prod.ext (congrArg Prod.fst load :) (congrArg (fun r => { s with machine := r.2 }) load :)
  rw [beginExecute, try_bind_ok awake, try_get_bind, try_get_bind, try_lift_bind, run]
  have on : On t ((t, .host info upvalue (x :: operands)) :: S) { s with machine := m } :=
    ⟨h.isOpen, h.active, h.idle.adds adds⟩
  cases loaded with
  | true => exact leads_startCall (show ([] : List Script.Value).length = 0 from rfl) _ on
  | false =>
    have fails : Leads (On t ((t, .host info upvalue ([x] ++ operands)) :: S))
        (do throw (← takeError s.height) : Attempt Unit).run
        (Outcome (fun _ => On t ((t, .host info upvalue operands) :: S))
          fun _ => Under (.call, (t, .host info upvalue operands) :: S)) :=
      .tryBind (.lift (leads_takeError h.height)) fun _ => .throw _ fun _ h => h
    exact fails _ on

theorem leads_beginCall (f : CellId) (count : Nat) :
    Leads (On t ((t, .host info upvalue operands) :: S)) (beginCall f count).run
      (Outcome (fun _ => On t ((t, .host info upvalue operands) :: S))
        fun r s => r.1 = t ∧ On t ((t, .host info upvalue (r.2 :: operands)) :: S) s) := by
  intro s h
  have begun := h.rests.leads_beginCall h.active f count s (.refl s)
  exact begun.imp (fun _ still => steady_on _ _ s _ h still) fun _ after =>
    ⟨after.1, h.adds after.2⟩

theorem leads_beginAssign (path : String) (v : Value) (create : Bool) :
    Leads (On t ((t, .host info upvalue operands) :: S)) (beginAssign path v create).run
      (Outcome (fun _ => On t ((t, .host info upvalue operands) :: S))
        fun r s => r.1 = t ∧ ∃ key table,
          On t ((t, .host info upvalue (key :: table :: operands)) :: S) s) := by
  intro s h
  have begun := h.rests.leads_beginAssign h.active path v create s (.refl s)
  refine begun.imp (fun _ still => steady_on _ _ s _ h still) fun _ after => ?_
  obtain ⟨same, key, table, adds⟩ := after
  exact ⟨same, key, table, h.adds adds⟩

/-- The finalizers of a session that is closed run on its main thread. -/
theorem leads_beginClose :
    Leads (On Machine.main S) beginClose fun _ => Under (.close, []) :=
  fun _ h => ⟨h.isOpen, h.active, h.idle.startClose⟩

theorem leads_finishClose : Leads (fun _ => True) finishClose fun _ => Shut :=
  fun _ _ => ⟨rfl, rfl, rfl⟩

/-! ## What the runtime does -/

/-- A runtime that waits is where the host waits, or has come back to it. -/
theorem leads_runMachine (steps : Nat) :
    Leads (Under w) (runMachine steps) fun r s => s.isOpen = true ∧ s.active = some w.2.thread
      ∧ s.machine.Goes w ∧ s.machine.pause? = r :=
  fun _ h => ⟨h.isOpen, h.active, h.lies.run steps, rfl⟩

/-- A collection that came upon the host is made while the host waits. -/
theorem leads_strike (budget : Nat) :
    Leads (fun s => On S.thread S s ∧ s.machine.canCollect = true) (strike budget)
      fun _ => Under (.sweep, S) := by
  refine .get_bind fun s h => ?_
  exact ⟨h.1.isOpen, h.1.active, h.1.idle.strike h.2 _ budget⟩

theorem leads_strikeAmid (budget : Nat) :
    Leads (fun s => Under w s ∧ s.machine.pause? = none) (strike budget) fun _ => Under w := by
  refine .get_bind fun s h => ?_
  exact ⟨h.1.isOpen, h.1.active, h.1.lies.strike h.2 _ budget⟩

theorem leads_collectGarbage :
    Leads (fun s => Under w s ∧ s.machine.mode = .paused .collecting) collectGarbage
      fun _ => Under w := by
  have works : ∀ f : Machine → Machine,
      (∀ m : Machine, m.Over w → m.mode = .paused .collecting → (f m).Over w) →
      Leads (fun s => Under w s ∧ s.machine.mode = .paused .collecting) (modifyMachine f)
        fun _ => Under w :=
    fun f hf s h => ⟨h.1.isOpen, h.1.active, hf _ h.1.lies h.2⟩
  exact .get_bind fun s h => works _ (fun _ lies mode => lies.collected mode _) s h

/-! ## Host code that a runtime calls -/

/-- Host code that a runtime calls runs on the thread that called it. -/
theorem leads_enter :
    Leads (fun s => Under w s ∧ s.machine.mode = .paused .invoked) enter fun previous s =>
      previous = some w.2.thread ∧ ∃ t info upvalue operands S,
        S ≠ [] ∧ Spine.ground S = w ∧ On t ((t, .host info upvalue operands) :: S) s := by
  intro s h
  obtain ⟨info, upvalue, operands, S, idle, deep, ground⟩ := h.1.lies.invoked h.2
  have run : enter.run s = (s.active, { s with active := some s.machine.current }) := by
    change (s.active, ite _ _ _) = _
    rw [if_pos h.1.isOpen]
  rw [run]
  exact ⟨h.1.active, s.machine.current, info, upvalue, operands, S, deep, ground,
    h.1.isOpen, rfl, idle⟩

theorem leads_leave : Leads (On t S) (leave (some t')) fun _ => On t' S := by
  intro s h
  have run : ((leave (some t')).run s).2 = { s with active := some t' } := if_pos h.isOpen
  rw [run]
  exact ⟨h.isOpen, rfl, h.idle⟩

/-- The results are made ready on the thread that called. -/
theorem leads_beginResults (vs : List Value) :
    Leads (On t S) (beginResults vs).run
      (Outcome (fun _ => On t S) fun r s => r.1 = t ∧ On t S s) := by
  intro s h
  have steady := steady_on t S
  have awake : thread.run.run s = (.ok t, s) := by rw [thread_run, h.active]; rfl
  rw [beginResults, try_bind_ok awake]
  refine Leads.tryBind (.attempt_of_preserves (still_reserve steady.gentle _ _)) (fun _ => ?_) s h
  refine Leads.tryBind (.attempt_of_preserves (still_packAll steady.gentle vs)) fun outs => ?_
  exact .tryPure _ fun _ h => ⟨rfl, h⟩

/-- The results are handed to what called. -/
theorem leads_returnResults (deep : S ≠ []) (ground : Spine.ground S = w) :
    Leads (On w.2.thread ((t, .host info upvalue operands) :: S)) returnResults
      fun _ => Under w :=
  fun _ h => ⟨h.isOpen, h.active, ground ▸ h.idle.returnFromHost deep⟩

/-- The error is raised in what called. -/
theorem leads_raiseFailure (deep : S ≠ []) (ground : Spine.ground S = w) (f : Failure) :
    Leads (On w.2.thread ((t, .host info upvalue operands) :: S)) (raiseFailure f)
      fun _ => Under w := by
  intro s h
  refine ⟨h.isOpen, h.active, ground ▸ ?_⟩
  change (Machine.failFromHost _).Over _
  rw [h.idle.top.1]
  exact (h.idle.setOperands _).failFromHost deep

/-! ## The release of a handle -/

/-- Whether the hook of a runtime that releases a handle is in progress. -/
structure Hooked (w : Wait × Spine) (target : Script.Value) (s : Session) : Prop where
  isOpen : s.isOpen = true
  active : s.active = some s.machine.current
  lies : s.machine.Over w
  mode : s.machine.mode = .paused (.releasing target)

theorem steady_hooked (w : Wait × Spine) (target : Script.Value) : Steady (Hooked w target) :=
  fun _ _ h still =>
    ⟨still.isOpen.trans h.isOpen, by rw [still.active, h.active, still.machine.current],
      h.lies.still still.machine, still.machine.mode.trans h.mode⟩

/-- The hook runs on the thread on which the runtime is. -/
theorem leads_enterHook {target : Script.Value} :
    Leads (fun s => Under w s ∧ s.machine.mode = .paused (.releasing target)) enter
      fun previous s => previous = some w.2.thread ∧ Hooked w target s := by
  intro s h
  have run : enter.run s = (s.active, { s with active := some s.machine.current }) := by
    change (s.active, ite _ _ _) = _
    rw [if_pos h.1.isOpen]
  rw [run]
  exact ⟨h.1.active, h.1.isOpen, rfl, h.1.lies, h.2⟩

theorem leads_leaveHook {target : Script.Value} :
    Leads (Hooked w target) (leave (some w.2.thread))
      fun _ s => Under w s ∧ s.machine.mode = .paused (.releasing target) := by
  intro s h
  have run : ((leave (some w.2.thread)).run s).2 = { s with active := some w.2.thread } :=
    if_pos h.isOpen
  rw [run]
  exact ⟨⟨h.isOpen, rfl, h.lies⟩, h.mode⟩

theorem leads_resume {target : Script.Value} :
    Leads (fun s => Under w s ∧ s.machine.mode = .paused (.releasing target)) resume
      fun _ => Under w :=
  fun _ h => ⟨h.1.isOpen, h.1.active, h.1.lies.released h.2⟩

end Session

end ScriptBridge

import ScriptBridge.Proofs.Threads
import ScriptBridge.Proofs.Underway

/-!
# ScriptBridge.Proofs.Moving

A turn moves sessions.  If a runtime runs in it, it does so first (`World.ran`); after that, all that
is done to the sessions are moves, and new sessions are opened.

Main facts:

* `World.led_run` — the sessions before and after a turn;
* `World.present_run` — a session that is there stays there.
-/

namespace ScriptBridge

/-- A collection that the runtime makes of its own accord is made, or it is not. -/
theorem Script.Machine.strike_cases (m : Script.Machine) (anchored : List Script.Value) (budget : Nat) :
    m.strike anchored budget = m ∨ (m.collect anchored).Alike (m.strike anchored budget) := by
  unfold strike
  split
  · generalize m.collect anchored = m'
    exact .inr ⟨rfl, rfl, rfl, rfl, rfl, .of_same rfl rfl⟩
  · exact .inl rfl

/-- A new host function makes no finalizer due. -/
theorem Script.Machine.due_newHostFunction (m : Script.Machine) : m.newHostFunction.2.2.due = m.due := by
  unfold newHostFunction noteFinalizer
  dsimp only
  split <;> rfl

namespace Session

/-- Finalizers that are due stay due, unless the session is closed. -/
theorem Moves.due {s s' : Session} (h : s.Moves s') (isOpen : s'.isOpen = true) :
    s.machine.due <+: s'.machine.due := by
  induction h with
  | refl => exact List.prefix_refl _
  | @tail u u' _ move ih =>
    refine (ih ((Move.moves move).isOpen isOpen)).trans ?_
    cases move with
    | beside _ _ _ _ alike => rw [alike.due]
    | built t pin =>
      have pushed := u.machine.newHostFunction.2.2.alike_pushOperand t u.machine.newHostFunction.2.1
      exact (pushed.due.trans u.machine.due_newHostFunction).symm ▸ List.prefix_refl _
    | taken => exact List.prefix_refl _
    | collected anchored =>
      obtain ⟨k, -, collected⟩ := u.machine.collect_collected anchored
      obtain ⟨lost, due⟩ := collected.due
      exact ⟨lost, due.symm⟩
    | began => exact ⟨u.machine.finalizable, rfl⟩
    | closed => cases isOpen

variable (s₀ : Session)

/-! ## What is done to a session -/

theorem moves_modifyMachine {f : Script.Machine → Script.Machine}
    (alike : ∀ m : Script.Machine, m.Alike (f m)) : Preserves s₀.Moves (modifyMachine f) :=
  fun s h => h.trans (Move.host (alike s.machine)).moves

theorem moves_withMachine {α : Type} {f : Script.Machine → α × Script.Machine}
    (alike : ∀ m : Script.Machine, m.Alike (f m).2) : Preserves s₀.Moves (withMachine f) :=
  fun s h => h.trans (Move.host (alike s.machine)).moves

theorem moves_dropAbove (t : Script.ThreadId) (base : Nat) : Preserves s₀.Moves (dropAbove t base) :=
  (moves_withMachine s₀ fun m => m.alike_takeOperands t base).bind fun _ => .pure _

theorem moves_leave (previous : Option Script.ThreadId) : Preserves s₀.Moves (leave previous) := by
  refine .modify fun s h => h.trans ?_
  split
  · exact Move.moves (.books rfl rfl rfl rfl .refl)
  · exact .refl s

theorem moves_enter : Preserves s₀.Moves enter := by
  refine .modifyGet fun s h => h.trans ?_
  dsimp only
  split
  · exact Move.moves (.books rfl rfl rfl rfl .refl)
  · exact .refl s

theorem moves_returnResults : Preserves s₀.Moves returnResults :=
  moves_modifyMachine s₀ fun m => m.alike_returnFromHost

theorem moves_raiseFailure (f : Failure) : Preserves s₀.Moves (raiseFailure f) :=
  moves_modifyMachine s₀ fun m => (m.alike_setOperands _ _).trans (Script.Machine.alike_failFromHost _)

theorem moves_startCall (count : Nat) : Preserves s₀.Moves (startCall count) :=
  moves_modifyMachine s₀ fun m => m.alike_startCall count

theorem moves_place (t : Script.ThreadId) (out : Outbound) : Preserves s₀.Moves (place t out) :=
  .get_bind fun s h =>
    moves_modifyMachine s₀ (fun m => m.alike_pushOperand t (s.valueOf out)) s h

theorem moves_build (t : Script.ThreadId) (pin : Handle) : Preserves s₀.Moves (build t pin) :=
  fun s h => h.trans (Move.built s t pin).moves

theorem moves_collect (t : Script.ThreadId) (base : Nat) : Preserves s₀.Moves (collect t base) :=
  (moves_withMachine s₀ fun m => m.alike_takeOperands t base).bind fun vs =>
    still_toCells (gentle_moves s₀) vs

theorem moves_takeArguments : Preserves s₀.Moves takeArguments :=
  .get_bind fun s h => moves_collect s₀ s.machine.current 0 s h

theorem moves_takeError (base : Nat) : Preserves s₀.Moves (takeError base) :=
  .get_bind fun _ h => Preserves.bind (moves_withMachine s₀ fun m => m.alike_takeOperands _ base)
    (fun _ => still_scriptFailure (gentle_moves s₀) _) _ h

theorem moves_dropResults (base : Nat) : Preserves s₀.Moves (dropResults base) :=
  .get_bind fun _ h => Preserves.bind (moves_withMachine s₀ fun m => m.alike_takeOperands _ base)
    (fun _ => .pure _) _ h

theorem moves_collectResults (base : Nat) : Preserves s₀.Moves (collectResults base) := by
  refine .get_bind fun s h => Preserves.bind (moves_collect s₀ _ base) (fun _ => ?_) s h
  refine .bind (.modify fun u h => ?_) fun _ => .pure _
  exact h.trans (Move.moves (.books rfl rfl rfl rfl .refl))

theorem moves_beginExecute (source : String) : Preserves s₀.Moves (beginExecute source).run := by
  refine .tryBind still_thread fun t => .tryGet fun s h => ?_
  refine Preserves.tryGet (fun u h => ?_) s h
  refine Preserves.tryBind (.lift (moves_withMachine s₀ fun m => m.alike_load t source.toUTF8 u.chunk))
    (fun loaded => ?_) u h
  cases loaded with
  | true => exact .lift (moves_modifyMachine s₀ fun m => m.alike_startCall 0)
  | false => exact .tryBind (.lift (moves_takeError s₀ s.height)) fun _ => .throw _

theorem moves_beginCall (f : CellId) (count : Nat) :
    Preserves s₀.Moves (beginCall f count).run := by
  refine .tryBind still_thread fun t => ?_
  split
  · exact .throw _
  · exact .tryBind (still_reserve (gentle_moves s₀) t _) fun _ => .tryGet fun s h =>
      Preserves.tryBind (.lift (moves_place s₀ t _)) (fun _ => .tryPure _) s h

theorem moves_beginResults (vs : List Value) : Preserves s₀.Moves (beginResults vs).run :=
  still_beginResults (gentle_moves s₀) vs

theorem moves_walk (t : Script.ThreadId) (base : Nat) (p : Path) (create : Bool) :
    Preserves s₀.Moves (walk t base p create).run := by
  refine .tryBind (.lift (moves_withMachine s₀ fun m =>
    (m.alike_pushOperand t _).trans (Script.Machine.alike_climb _ t p create _ _))) fun walked => ?_
  cases walked with
  | ok => exact .tryPure _
  | error fault => exact .tryBind (.lift (moves_dropAbove s₀ t base)) fun _ => .throw _

theorem moves_beginAssign (path : String) (v : Value) (create : Bool) :
    Preserves s₀.Moves (beginAssign path v create).run := by
  have gentle := gentle_moves s₀
  have parsed : Preserves s₀.Moves (MonadExcept.ofExcept (Path.parse path) : Attempt Path).run := by
    cases Path.parse path
    · exact .throw _
    · exact .tryPure _
  refine .tryBind still_thread fun t => .tryBind parsed fun p =>
    .tryBind (still_pack gentle v) fun out => .tryBind (.tryCatch ?_ fun f => ?_) fun _ => .tryPure _
  · refine .tryGet fun s h => Preserves.tryBind (still_reserve gentle t 5) (fun _ => ?_) s h
    exact .tryBind (moves_walk s₀ t _ p create) fun _ =>
      .lift (moves_modifyMachine s₀ fun m => m.alike_pushOperand t _)
  · exact .tryBind (.lift (still_abandon gentle [out])) fun _ => .throw _

theorem moves_finishAssign (t : Script.ThreadId) : Preserves s₀.Moves (finishAssign t) :=
  moves_modifyMachine s₀ fun m => m.alike_setField t 0

theorem moves_beginClose : Preserves s₀.Moves beginClose := fun s h => h.trans (Move.began s).moves

theorem moves_finishClose : Preserves s₀.Moves finishClose := fun s h => h.trans (Move.closed s).moves

theorem moves_resume : Preserves s₀.Moves resume :=
  moves_modifyMachine s₀ fun _ => ⟨rfl, rfl, rfl, rfl, rfl, .of_same rfl rfl⟩

/-- A runtime after a collection. -/
theorem moves_collected {s : Session} (f : Script.Machine → Script.Machine)
    {anchored : List Script.Value} (h : s₀.Moves s)
    (alike : (s.machine.collect anchored).Alike (f s.machine)) :
    s₀.Moves ((modifyMachine f).run s).2 := by
  have first := h.trans (Move.collected s anchored).moves
  generalize s.machine.collect anchored = m at first alike
  exact first.trans (Move.host (s := { s with machine := m }) alike).moves

theorem moves_collectGarbage : Preserves s₀.Moves collectGarbage := by
  have alike : ∀ m : Script.Machine, m.Alike (m.deliver []) := fun _ => ⟨rfl, rfl, rfl, rfl, rfl, .of_same rfl rfl⟩
  exact .get_bind fun s h => moves_collected s₀ (fun m => (m.collect s.anchors.values).deliver []) h
    (alike (s.machine.collect s.anchors.values))

theorem moves_strike (budget : Nat) : Preserves s₀.Moves (strike budget) := by
  refine .get_bind fun s h => ?_
  obtain same | alike := s.machine.strike_cases s.anchors.values budget
  · have run : ((modifyMachine fun m => m.strike s.anchors.values budget).run s).2
        = { s with machine := s.machine.strike s.anchors.values budget } := rfl
    rw [run, same]
    exact h
  · exact moves_collected s₀ (fun m => m.strike s.anchors.values budget) h alike

end Session

namespace Host.World

variable {w₀ w w' : World} {id : SessionId}

/-! ## What is done to the sessions of a world -/

/-- Whether the sessions of a world have come from those of another by moves, or are new. -/
structure Led (w₀ w : World) : Prop where
  issued : w₀.issued ≤ w.issued
  numbered : ∀ (id : SessionId) (s : Session), w.sessions[id]? = some s → id ≤ w.issued
  kept : ∀ (id : SessionId) (s₀ : Session), w₀.sessions[id]? = some s₀ →
    ∃ s, w.sessions[id]? = some s ∧ s₀.Moves s
  fresh : ∀ (id : SessionId) (s : Session), w.sessions[id]? = some s → w₀.sessions[id]? = none →
    w₀.issued < id ∧ ∃ options, (Session.start id options).Moves s

theorem Led.refl (numbered : ∀ (id : SessionId) (s : Session), w.sessions[id]? = some s → id ≤ w.issued) :
    w.Led w :=
  ⟨Nat.le_refl _, numbered, fun _ s hs => ⟨s, hs, .refl s⟩, fun _ _ hs none => by
    rw [none] at hs
    cases hs⟩

/-- The sessions are as they were. -/
theorem Led.aside (h : w₀.Led w) (sessions : w'.sessions = w.sessions) (issued : w.issued ≤ w'.issued) :
    w₀.Led w' :=
  ⟨Nat.le_trans h.issued issued, fun id s hs => Nat.le_trans (h.numbered id s (sessions ▸ hs)) issued,
    fun id s₀ hs₀ => sessions ▸ h.kept id s₀ hs₀, fun id s hs => h.fresh id s (sessions ▸ hs)⟩

/-- Every session has moved, or has come with this one from where it was. -/
theorem Led.moved (h : w₀.Led w) (issued : w.issued ≤ w'.issued)
    (there : ∀ (id : SessionId) (s : Session), w.sessions[id]? = some s →
      ∃ s', w'.sessions[id]? = some s' ∧ s.Moves s')
    (before : ∀ (id : SessionId) (s' : Session), w'.sessions[id]? = some s' →
      ∃ s, w.sessions[id]? = some s ∧ s.Moves s') : w₀.Led w' where
  issued := Nat.le_trans h.issued issued
  numbered := fun id s' hs' => by
    obtain ⟨s, hs, -⟩ := before id s' hs'
    exact Nat.le_trans (h.numbered id s hs) issued
  kept := fun id s₀ hs₀ => by
    obtain ⟨s, hs, moves⟩ := h.kept id s₀ hs₀
    obtain ⟨s', hs', moves'⟩ := there id s hs
    exact ⟨s', hs', moves.trans moves'⟩
  fresh := fun id s' hs' none => by
    obtain ⟨s, hs, moves'⟩ := before id s' hs'
    obtain ⟨later, options, moves⟩ := h.fresh id s hs none
    exact ⟨later, options, moves.trans moves'⟩

theorem steady_led (w₀ : World) : Steady w₀.Led := fun _ _ h calm =>
  h.moved calm.ages.issued (fun _ _ hs => (calm.some hs).imp fun _ h => ⟨h.1, h.2.moves⟩)
    fun _ _ hs' => (calm.before hs').imp fun _ h => ⟨h.1, h.2.moves⟩

theorem Led.withSession (h : w₀.Led w) {s s' : Session} (hs : w.sessions[id]? = some s)
    (moves : s.Moves s') : w₀.Led (w.withSession id s') := by
  refine h.moved (Nat.le_refl _) (fun i u hu => ?_) fun i u' hu' => ?_
  · by_cases here : i = id
    · subst here
      cases hs.symm.trans hu
      exact ⟨s', getElem?_withSession_self .., moves⟩
    · exact ⟨u, (getElem?_withSession_of_ne here).trans hu, .refl u⟩
  · by_cases here : i = id
    · subst here
      rw [getElem?_withSession_self] at hu'
      cases hu'
      exact ⟨s, hs, moves⟩
    · rw [getElem?_withSession_of_ne here] at hu'
      exact ⟨u', hu', .refl u'⟩

/-- A session is opened under the next number. -/
theorem Led.opened (h : w₀.Led w) (options : Settings) (issued : w'.issued = w.issued + 1)
    (sessions : w'.sessions
      = w.sessions.insert (w.issued + 1) (Session.start (w.issued + 1) options)) : w₀.Led w' := by
  have other : ∀ {i : SessionId}, i ≠ w.issued + 1 → w'.sessions[i]? = w.sessions[i]? := by
    intro i other
    rw [sessions, Std.TreeMap.getElem?_insert, if_neg]
    simpa using Ne.symm other
  have there : w'.sessions[w.issued + 1]? = some (Session.start (w.issued + 1) options) := by
    rw [sessions, Std.TreeMap.getElem?_insert_self]
  refine ⟨by rw [issued]; exact Nat.le_succ_of_le h.issued, fun i s hs => ?_, fun i s₀ hs₀ => ?_,
    fun i s hs none => ?_⟩
  · by_cases here : i = w.issued + 1
    · rw [here, issued]
    · rw [issued]
      exact Nat.le_succ_of_le (h.numbered i s ((other here) ▸ hs))
  · obtain ⟨s, hs, moves⟩ := h.kept i s₀ hs₀
    have here : i ≠ w.issued + 1 := by
      rintro rfl
      exact absurd (h.numbered _ s hs) (Nat.not_le.mpr (Nat.lt_succ_self _))
    exact ⟨s, (other here).trans hs, moves⟩
  · by_cases here : i = w.issued + 1
    · subst here
      cases there.symm.trans hs
      exact ⟨Nat.lt_succ_of_le h.issued, options, .refl _⟩
    · exact h.fresh i s ((other here) ▸ hs) none

/-! ## Parts of a turn -/

section

variable {α : Type}

theorem led_same {x : Act α} (sessions : ∀ w, (x.run w).2.sessions = w.sessions)
    (issued : ∀ w, (x.run w).2.issued = w.issued) : Preserves w₀.Led x :=
  fun w h => h.aside (sessions w) (issued w).ge

theorem led_onSession [Inhabited α] {op : Op α} (moves : ∀ s : Session, Preserves s.Moves op) :
    Preserves w₀.Led (onSession id op) := by
  intro w h
  cases hs : w.sessions[id]? with
  | none => rwa [onSession_run_none hs]
  | some s =>
    rw [onSession_run_some hs]
    exact h.withSession hs (moves s s (.refl s))

/-- A look at a session. -/
theorem led_look [Inhabited α] (f : Session → α) :
    Preserves w₀.Led (onSession id (do return f (← get)) : Act α) :=
  led_onSession fun _ _ h => h

end

theorem led_begin (a : Activity) : Preserves w₀.Led (begin a) := led_same (fun _ => rfl) fun _ => rfl

theorem led_finishTop : Preserves w₀.Led finishTop := led_same (fun _ => rfl) fun _ => rfl

theorem led_replaceTop (a : Activity) : Preserves w₀.Led (replaceTop a) :=
  led_same (fun _ => rfl) fun _ => rfl

theorem led_onDirectory {α : Type} (op : Clerk α) : Preserves w₀.Led (onDirectory op) :=
  led_same (fun _ => rfl) fun _ => rfl

theorem led_setControl (c : Control) : Preserves w₀.Led (setControl c) :=
  calm_setControl (steady_led w₀) c

theorem led_beginDelivery {t : Script.ThreadId} {outs : List Session.Outbound} {errand : Errand} :
    Preserves w₀.Led (beginDelivery id t outs errand) :=
  (led_begin _).bind fun _ => led_setControl _

/-- Host code that a runtime called is left with an error. -/
theorem led_refuse (previous : Option Script.ThreadId) (f : Failure) : Preserves w₀.Led (do
    onSession id (Session.leave previous)
    onSession id (Session.raiseFailure f)
    setControl (.script id) : Act Unit) :=
  (led_onSession fun s => s.moves_leave previous).bind fun _ =>
    (led_onSession fun s => s.moves_raiseFailure f).bind fun _ => led_setControl _

theorem led_delivered (d : Delivery) (errand : Errand) : Preserves w₀.Led (delivered d errand) := by
  have steady := steady_led w₀
  cases errand with
  | call step base f c =>
    exact (led_onSession fun s => s.moves_startCall _).bind fun _ => (led_begin _).bind fun _ =>
      led_setControl _
  | assign step base v =>
    exact (led_onSession fun s => s.moves_finishAssign _).bind fun _ =>
      (led_onSession fun s => s.moves_dropAbove _ _).bind fun _ =>
        (calm_releaseOutbound steady _ _).bind fun _ => (calm_dropValue steady v).bind fun _ =>
          calm_finishStep steady step _
  | results previous vs =>
    exact (calm_releaseOutbound steady _ _).bind fun _ => (calm_dropValues steady vs).bind fun _ =>
      (led_onSession fun s => s.moves_leave previous).bind fun _ =>
        (led_onSession fun s => s.moves_returnResults).bind fun _ => led_setControl _

theorem led_undelivered (d : Delivery) (f : Failure) (errand : Errand) :
    Preserves w₀.Led (undelivered d f errand) := by
  have steady := steady_led w₀
  cases errand with
  | call step base g c =>
    exact (led_onSession fun s => s.moves_dropAbove _ _).bind fun _ =>
      (calm_releaseOutbound steady _ _).bind fun _ => calm_finishCall steady step c _
  | assign step base v =>
    exact (led_onSession fun s => s.moves_dropAbove _ _).bind fun _ =>
      (calm_releaseOutbound steady _ _).bind fun _ => (calm_dropValue steady v).bind fun _ =>
        calm_finishStep steady step _
  | results previous vs =>
    exact (calm_releaseOutbound steady _ _).bind fun _ => (calm_dropValues steady vs).bind fun _ =>
      led_refuse previous f

theorem led_deliverNext (d : Delivery) (errand : Errand) : Preserves w₀.Led (deliverNext d errand) := by
  unfold deliverNext
  split
  · exact (led_replaceTop _).bind fun _ => led_onSession fun s => s.moves_build _ _
  · split
    · exact led_finishTop.bind fun _ => led_delivered d errand
    · refine Preserves.bind (led_onSession fun s => Session.still_repin (Session.gentle_moves s) _)
        fun r => ?_
      cases r with
      | error f => exact led_finishTop.bind fun _ => led_undelivered d f errand
      | ok r =>
        cases r with
        | none =>
          exact (led_onSession fun s => s.moves_place _ _).bind fun _ => led_replaceTop _
        | some r => exact (calm_retain (steady_led w₀) r.2).bind fun _ => led_replaceTop _

theorem led_answerScript (previous : Option Script.ThreadId) (callable : CallableId) (ending : Ending) :
    Preserves w₀.Led (answerScript id previous callable ending) := by
  have steady := steady_led w₀
  refine (calm_release steady _).bind fun _ => ?_
  cases ending with
  | failed f => exact led_refuse previous f
  | panicked text => exact led_refuse previous _
  | returned vs =>
    refine Preserves.bind (led_onSession fun s => s.moves_beginResults vs) fun r => ?_
    cases r with
    | error f => exact (calm_dropValues steady vs).bind fun _ => led_refuse previous f
    | ok r => exact (calm_retainAll steady _).bind fun _ => led_beginDelivery

theorem led_enterCallable (f : CallableId) (args : List Value) :
    Preserves w₀.Led (enterCallable f args) := by
  have steady := steady_led w₀
  refine .get_bind fun w h => ?_
  cases w.callables[f]? with
  | none => exact Preserves.bind (calm_dropValues steady args) (fun _ => led_setControl _) w h
  | some c =>
    have body : Preserves w₀.Led (do
        begin (.program (some ⟨f, argumentSlots 1 args ∅⟩) c.code.body)
        setControl .proceed : Act Unit) := (led_begin _).bind fun _ => led_setControl _
    cases quiet : c.code.quiet with
    | true =>
      simp only [quiet]
      exact body w h
    | false =>
      simp only [quiet]
      exact Preserves.bind (calm_report steady _ rfl) (fun _ => body) w h

theorem led_leaveBody (ending : Ending) : Preserves w₀.Led (leaveBody ending) := by
  have steady := steady_led w₀
  refine (led_setControl _).bind fun _ => .get_bind fun w h => ?_
  split
  · rename_i f _ _ previous callable _ _
    exact Preserves.bind led_finishTop (fun _ => led_finishTop.bind fun _ =>
      (calm_dropSlots steady _).bind fun _ => led_answerScript previous callable ending) w h
  · rename_i f _ step c _ _
    exact Preserves.bind led_finishTop (fun _ => led_finishTop.bind fun _ =>
      (calm_dropSlots steady _).bind fun _ => calm_finishCall steady step c _) w h
  · exact calm_dropValues steady _ w h

/-! ## Steps -/

theorem led_beginExecute (step : Step) (name source : String) :
    Preserves w₀.Led (beginExecute step name source) := by
  have tried : ∀ id, Preserves w₀.Led (trySession id (Session.beginExecute source)).run := fun id => by
    refine .tryBind (.lift (led_onSession fun s => s.moves_beginExecute source)) fun r => ?_
    cases r
    · exact .throw _
    · exact .tryPure _
  refine .bind (.tryBind (calm_sessionNamed name) fun id => .tryBind (.lift (led_look _)) fun _ =>
    .tryBind (tried id) fun _ => .tryPure _) fun r => ?_
  cases r with
  | error mishap => exact calm_finishStep (steady_led w₀) step _
  | ok r => exact (led_begin _).bind fun _ => led_setControl _

theorem led_beginClose (step : Step) (name : String) : Preserves w₀.Led (beginClose step name) := by
  refine (calm_sessionNamed name).bind fun r => ?_
  cases r with
  | error mishap => exact calm_finishStep (steady_led w₀) step _
  | ok id =>
    refine .get_bind fun w h => ?_
    split
    · exact calm_finishStep (steady_led w₀) step _ w h
    · exact Preserves.bind (led_same (fun _ => rfl) fun _ => rfl) (fun _ => (led_begin _).bind fun _ =>
        (led_onSession fun s => s.moves_beginClose).bind fun _ => led_setControl _) w h

theorem led_beginScriptCall (step : Step) (ref : Ref) (c : Calling) :
    Preserves w₀.Led (beginScriptCall step ref c) := by
  have steady := steady_led w₀
  refine Preserves.bind (led_onSession fun s => .tryBind Session.still_thread fun _ =>
    Session.still_packAll (Session.gentle_moves s) _) fun r => ?_
  cases r with
  | error f => exact calm_finishCall steady step c _
  | ok outs =>
    refine (calm_retainAll steady _).bind fun _ => (led_look _).bind fun height =>
      Preserves.bind (led_onSession fun s => s.moves_beginCall _ _) fun r => ?_
    cases r with
    | error f => exact (calm_releaseOutbound steady _ _).bind fun _ => calm_finishCall steady step c _
    | ok r => exact led_beginDelivery

/-- What holds while a step is prepared: host code runs on all sessions. -/
def Readies (w₀ w : World) : Prop := w.Rests ∧ w₀.Led w

theorem steady_readies (w₀ : World) : Steady w₀.Readies := fun w w' h calm =>
  ⟨h.1.calm calm, steady_led w₀ w w' h.2 calm⟩

theorem led_beginAssign (step : Step) (name path : String) {e : Try Value} (create : Bool)
    (he : Preserves w₀.Readies e.run) :
    Leads w₀.Readies (beginAssign step name path e create) fun _ => w₀.Led := by
  have steady := steady_led w₀
  refine (Leads.of_preserves he).mono (fun _ h => h) (fun _ _ h => h.2) |>.bind fun r =>
    .of_preserves ?_
  cases r with
  | error mishap => exact calm_finishStep steady step _
  | ok v =>
    refine (calm_sessionNamed name).bind fun r => ?_
    cases r with
    | error mishap => exact (calm_dropValue steady v).bind fun _ => calm_finishStep steady step _
    | ok id =>
      refine (led_look _).bind fun height =>
        Preserves.bind (led_onSession fun s => s.moves_beginAssign path v create) fun r => ?_
      cases r with
      | error f => exact (calm_dropValue steady v).bind fun _ => calm_finishStep steady step _
      | ok r => exact (calm_retainAll steady _).bind fun _ => led_beginDelivery

theorem led_beginCall (step : Step) (slot : String) (args : List ItemExpr) (into : List String)
    (count : Bool) : Leads w₀.Readies (beginCall step slot args into count) fun _ => w₀.Led := by
  have prepared : Preserves w₀.Readies (prepareCall slot args into count).run :=
    preserves_prepareCall (steady_readies w₀) (fun _ h => h.1) slot args into count
  refine ((Leads.of_preserves prepared).mono (fun _ h => h) fun _ _ h => h.2).bind fun r =>
    .of_preserves ?_
  cases r with
  | error mishap => exact calm_finishStep (steady_led w₀) step _
  | ok r =>
    obtain ⟨v, c⟩ := r
    cases v with
    | function ref => exact led_beginScriptCall step ref c
    | callable f => exact (led_begin _).bind fun _ => led_enterCallable f _
    | _ => exact calm_finishCall (steady_led w₀) step _ _

theorem led_immediate {action : Action} {act : Try Answer} (h : immediate action = some act) :
    Leads w₀.Readies act.run fun _ => w₀.Led := by
  cases mapped : action.isMapped with
  | false =>
    exact fun w hw =>
      (preserves_immediate (steady_readies w₀) (fun _ h => h.1) h mapped w hw).2
  | true =>
    cases action with
    | openSession name options =>
      obtain rfl := Option.some.inj h
      exact fun w hw => hw.2.opened options rfl rfl
    | showMap | holdMap | freeMaps =>
      obtain rfl := Option.some.inj h
      exact fun w hw => hw.2.aside rfl (Nat.le_refl _)
    | _ => cases mapped

theorem led_beginStep (step : Step) : Leads w₀.Readies (beginStep step) fun _ => w₀.Led := by
  have plain : ∀ {x : Act Unit}, Preserves w₀.Led x → Leads w₀.Readies x fun _ => w₀.Led :=
    fun h w hw => h w hw.2
  have steady := steady_readies w₀
  have finishes := fun r => calm_finishStep (steady_led w₀) step r
  unfold beginStep
  split
  · rename_i act immediate
    exact (led_immediate immediate).bind fun r => .of_preserves (finishes r)
  · split
    · exact plain (led_beginExecute step _ _)
    · exact plain (led_beginClose step _)
    · exact led_beginAssign step _ _ _ (preserves_value steady (fun _ h => h.1) _)
    · exact led_beginAssign step _ _ _ (.tryBind (preserves_callable steady (fun _ h => h.1) _)
        fun _ => .tryPure _)
    · exact led_beginAssign step _ _ _ (calm_anotherOf steady _)
    · exact led_beginCall step _ _ _ _
    · refine plain (.get_bind fun w h => ?_)
      split
      · exact led_setControl _ w h
      · exact finishes _ w h
    · exact plain (finishes _)

/-! ## What a runtime waits for -/

theorem led_receive : Preserves w₀.Led (receive id) := by
  have steady := steady_led w₀
  have freed : ∀ (cells : List (Option CellId)), Preserves w₀.Led (onSession id
      (Session.freeAll cells)) := fun cells =>
    led_onSession fun s => Session.still_freeAll (Session.gentle_moves s) cells
  refine (led_onSession fun s => s.moves_enter).bind fun previous =>
    (led_onSession fun s => s.moves_takeArguments).bind fun cells => (led_look _).bind fun handle => ?_
  cases handle with
  | none => exact (freed cells).bind fun _ => led_refuse previous _
  | some handle =>
    refine (led_look _).bind fun found => ?_
    cases found with
    | none => exact (freed cells).bind fun _ => led_refuse previous _
    | some callable =>
      refine (calm_retain steady callable).bind fun _ => Preserves.bind (led_onSession fun s =>
        Session.still_unpackAll (Session.gentle_moves s) cells) fun r => ?_
      cases r with
      | error f => exact (calm_release steady _).bind fun _ => led_refuse previous f
      | ok vs => exact (led_begin _).bind fun _ => led_enterCallable callable vs

theorem led_ownerOf : Preserves w₀.Led (ownerOf id) := led_same (fun _ => rfl) fun _ => rfl

theorem led_serve : Preserves w₀.Led (serve id) := by
  refine led_ownerOf.bind fun owner => ?_
  cases owner with
  | some owner => exact led_receive
  | none => exact (led_onDirectory _).bind fun _ => led_setControl _

theorem led_releaseHandle (target : Script.Value) : Preserves w₀.Led (releaseHandle id target) := by
  refine (led_onSession fun s => Session.still_takeHandle (Session.gentle_moves s) target).bind
    fun handle => ?_
  cases handle with
  | none => exact led_onSession fun s => s.moves_resume
  | some handle =>
    refine led_ownerOf.bind fun owner => ?_
    have released : Preserves w₀.Led (owner.forM (releasePin handle) : Act Unit) := by
      cases owner with
      | none => exact .pure _
      | some owner =>
        exact (led_onSession fun s => s.moves_enter).bind fun previous =>
          (led_onSession fun s => Session.still_unpin (Session.gentle_moves s) handle).bind fun _ =>
            (calm_release (steady_led w₀) _).bind fun _ => led_onSession fun s => s.moves_leave previous
    exact released.bind fun _ => led_onSession fun s => s.moves_resume

theorem led_finishScript (raised : Bool) : Preserves w₀.Led (finishScript id raised) := by
  have steady := steady_led w₀
  refine .get_bind fun w h => ?_
  split
  · refine Preserves.bind led_finishTop (fun _ => ?_) w h
    unfold finishExecuting
    split
    · exact (led_onSession fun s => s.moves_takeError _).bind fun _ => calm_finishStep steady _ _
    · exact (led_onSession fun s => s.moves_dropResults _).bind fun _ => calm_finishStep steady _ _
  · refine Preserves.bind led_finishTop (fun _ => ?_) w h
    unfold finishCalling
    split
    · exact (led_onSession fun s => s.moves_takeError _).bind fun _ =>
        (calm_releaseOutbound steady _ _).bind fun _ => calm_finishCall steady _ _ _
    · refine (led_onSession fun s => s.moves_collectResults _).bind fun cells =>
        (calm_releaseOutbound steady _ _).bind fun _ => Preserves.bind (led_onSession fun s =>
          Session.still_takeResults (Session.gentle_moves s) cells) fun r => ?_
      cases r <;> exact calm_finishCall steady _ _ _
  · exact led_setControl _ w h

theorem led_finishClose : Preserves w₀.Led (finishClose id) := by
  have steady := steady_led w₀
  refine ((led_onDirectory _).bind fun _ => led_onSession fun s => s.moves_finishClose).bind
    fun callables => (calm_release steady _).bind fun _ => (led_onDirectory _).bind fun _ =>
      .get_bind fun w h => ?_
  split
  · exact Preserves.bind led_finishTop (fun _ => calm_finishStep steady _ _) w h
  · exact led_setControl _ w h

theorem led_attend (pause : Script.Pause) : Preserves w₀.Led (attend id pause) := by
  cases pause with
  | invoked => exact led_serve
  | releasing target => exact led_releaseHandle target
  | collecting => exact led_onSession fun s => s.moves_collectGarbage
  | returned => exact led_finishScript false
  | raised => exact led_finishScript true
  | closed => exact led_finishClose
  | swept =>
    refine .get_bind fun w h => ?_
    split
    · exact Preserves.bind led_finishTop (fun _ => led_setControl _) w h
    · exact led_setControl _ w h

/-! ## Turns -/

theorem led_sweep (budget : Nat) : Preserves w₀.Led (sweep id budget) := by
  refine (led_look _).bind fun can => ?_
  cases can with
  | false => exact .pure _
  | true =>
    exact (led_onSession fun s => s.moves_strike budget).bind fun _ => (led_begin _).bind fun _ =>
      led_setControl _

theorem led_proceed : Leads w₀.Readies proceed fun _ => w₀.Led := by
  have steady := steady_led w₀
  refine .get_bind fun w h => ?_
  have led := h.2
  split
  · rw [stateM_run_bind]
    exact led_beginStep _ _ ⟨h.1, led.aside rfl (Nat.le_refl _)⟩
  · rename_i f _ _
    exact Leads.bind (.of_preserves (preserves_bodyResults (steady_readies w₀) (fun _ h => h.1) f))
      (fun ending => (Leads.of_preserves (led_leaveBody ending)).mono (fun _ h => h.2) fun _ _ h => h)
      w h
  · have emptied : ∀ slots, Preserves w₀.Led (do
        modify fun w => { w with slots := ∅ }
        dropSlots slots
        begin .teardown : Act Unit) := fun slots =>
      (led_same (fun _ => rfl) fun _ => rfl).bind fun _ => (calm_dropSlots steady slots).bind fun _ =>
        led_begin _
    exact Preserves.bind (calm_report steady _ rfl) (fun _ => led_finishTop.bind fun _ =>
      .get_bind fun u hu => emptied u.slots u hu) w led
  · rw [stateM_get_bind]
    split
    · exact Preserves.bind (calm_report steady _ rfl) (fun _ => led_setControl _) w led
    · exact Preserves.bind (led_same (fun _ => rfl) fun _ => rfl) (fun _ => (led_begin _).bind fun _ =>
        (led_onSession fun s => s.moves_beginClose).bind fun _ => led_setControl _) w led
  · rename_i d errand _ _
    exact led_deliverNext d errand w led
  · exact led_setControl _ w led

/-- A world in which the runtime that runs in the next turn has made its steps. -/
def ran (w : World) : World :=
  match w.control with
  | .script id =>
    match w.sessions[id]? with
    | some s => w.withSession id { s with machine := s.machine.run w.patience }
    | none => w
  | _ => w

/-- The runtime of a session when the one that runs in the next turn has made its steps. -/
def stepped (w : World) (id : SessionId) (m : Script.Machine) : Script.Machine :=
  if w.control.script? = some id then m.run w.patience else m

theorem stepped_of_script (control : w.control = .script id) (m : Script.Machine) :
    w.stepped id m = m.run w.patience := by rw [stepped, control]; exact if_pos rfl

theorem stepped_of_other (other : w.control ≠ .script id) (m : Script.Machine) :
    w.stepped id m = m := by
  refine if_neg fun here => other ?_
  cases control : w.control with
  | script j =>
    rw [control] at here
    rw [Option.some.inj here]
  | _ => rw [control] at here; cases here

theorem ran_of_script (control : w.control = .script id) {s : Session} (hs : w.sessions[id]? = some s) :
    w.ran = w.withSession id { s with machine := s.machine.run w.patience } := by
  rw [ran, control]
  dsimp only
  rw [hs]

theorem ran_of_idle (idle : ∀ id, w.control ≠ .script id) : w.ran = w := by
  rw [ran]
  split
  · rename_i id control
    exact absurd control (idle id)
  · rfl

theorem led_pursue : Preserves w₀.Led (w.pursue id) := by
  unfold pursue
  split
  · exact led_onSession fun s => s.moves_strike _
  · exact .pure _

/-- A turn moves sessions, once the runtime that runs has made its steps. -/
theorem led_advance (numbered : ∀ (id : SessionId) (s : Session), w.sessions[id]? = some s → id ≤ w.issued)
    (rests : w.control = .proceed → w.Rests) (there : ∀ id, w.control = .script id →
      ∃ s, w.sessions[id]? = some s) : w.ran.Led (advance.run w).2 := by
  have whim : nextWhim.run w = (w.whims.headD .pass, { w with whims := w.whims.tail }) := rfl
  have begins : ∀ c, w.Led { w with whims := w.whims.tail, control := c } := fun _ =>
    (Led.refl numbered).aside rfl (Nat.le_refl _)
  cases control : w.control with
  | proceed =>
    rw [ran_of_idle (fun id eq => by rw [control] at eq; cases eq), advance, stateM_get_bind,
      stateM_run_bind, whim, control]
    cases w.whims.headD .pass with
    | upon id budget => exact led_sweep budget _ (begins _)
    | _ => exact led_proceed _ ⟨rests control, begins _⟩
  | script id =>
    obtain ⟨s, hs⟩ := there id control
    have ran : (onSession id (Session.runMachine w.patience)).run { w with whims := w.whims.tail }
        = ((s.machine.run w.patience).pause?, { w.ran with whims := w.whims.tail }) := by
      rw [onSession_run_some (w := { w with whims := w.whims.tail }) hs, ran_of_script control hs]
      rfl
    have begins : w.ran.Led { w.ran with whims := w.whims.tail } := by
      refine (Led.refl fun i u hu => ?_).aside rfl (Nat.le_refl _)
      rw [ran_of_script control hs] at hu ⊢
      by_cases here : i = id
      · exact here ▸ numbered id s hs
      · exact numbered i u ((getElem?_withSession_of_ne here) ▸ hu)
    rw [advance_script control, stateM_run_bind, ran]
    cases (s.machine.run w.patience).pause? with
    | none => exact led_pursue _ begins
    | some pause => exact led_attend pause _ begins
  | leave ending =>
    rw [ran_of_idle (fun id eq => by rw [control] at eq; cases eq), advance, stateM_get_bind,
      stateM_run_bind, whim, control]
    cases w.whims.headD .pass <;> exact led_leaveBody ending _ (begins _)
  | done =>
    rw [ran_of_idle (fun id eq => by rw [control] at eq; cases eq), advance, stateM_get_bind,
      stateM_run_bind, whim, control]
    cases w.whims.headD .pass <;> exact begins _

/-! ## Runs -/

/-- The sessions before and after a turn of a run. -/
theorem led_run (program : List Step) (whims : List Whim) (n : Nat) :
    ((start program whims).run n).ran.Led ((start program whims).run (n + 1)) := by
  obtain ⟨Ss, nests, -⟩ := nests_run program whims n
  obtain ⟨same, done⟩ | next := run_succ n (start program whims)
  · rw [same, ran_of_idle fun id eq => by rw [done] at eq; cases eq]
    exact .refl nests.numbered
  · rw [next]
    exact led_advance nests.numbered nests.rests fun id control =>
      nests.runs id (by rw [control]; rfl)

/-- The sessions are there when the runtime that runs has made its steps. -/
theorem ran_sessions {s : Session} (hs : w.sessions[id]? = some s) :
    w.ran.sessions[id]? = some { s with machine := w.stepped id s.machine } := by
  by_cases control : w.control = .script id
  · rw [ran_of_script control hs, getElem?_withSession_self, stepped_of_script control]
  · rw [stepped_of_other control, ran]
    split
    · rename_i j running
      have other : id ≠ j := by
        rintro rfl
        exact control running
      split
      · rw [getElem?_withSession_of_ne other, hs]
      · exact hs
    · exact hs

/-- A session that is there stays there. -/
theorem present_run (program : List Step) (whims : List Whim) {m n : Nat} (le : m ≤ n) {s : Session}
    (hs : ((start program whims).run m).sessions[id]? = some s) :
    ∃ s', ((start program whims).run n).sessions[id]? = some s' := by
  induction n, le using Nat.le_induction with
  | base => exact ⟨s, hs⟩
  | succ n _ ih =>
    obtain ⟨u, hu⟩ := ih
    obtain ⟨s', hs', -⟩ := (led_run program whims n).kept id _ (ran_sessions hu)
    exact ⟨s', hs'⟩

end Host.World

end ScriptBridge

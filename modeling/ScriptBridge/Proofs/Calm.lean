import ScriptBridge.Proofs.Ages
import ScriptBridge.Proofs.Still
import ScriptBridge.Proofs.Evaluation

/-!
# ScriptBridge.Proofs.Calm

What host code does to the runtimes before it calls one: nothing.  Values are made, stored, copied
and let go of, and the sessions and the activities are what they were: `World.Calm`, but for the
slots that activities hold.

Main facts:

* `preserves_value`, `preserves_items`, `preserves_immediate` — values, lists, and steps that do
  not run scripts;
* `calm_finishStep`, `calm_finishCall` — the end of a step.
-/

namespace ScriptBridge.Host

/-- Whether a step works on the session maps. -/
def Action.isMapped : Action → Bool
  | .openSession .. | .showMap | .holdMap | .freeMaps => true
  | _ => false

/-- A call without what was replaced in the slot that it borrows. -/
def Calling.plain (c : Calling) : Calling := { c with replaced := none }

/-- An activity without the slots it holds, and without what was replaced in those it borrows. -/
def Activity.shape : Activity → Activity
  | .program frame rest => .program (frame.map fun f => ⟨f.callable, ∅⟩) rest
  | .step s (.calling id base outs c) => .step s (.calling id base outs c.plain)
  | .step s (.callingHost c) => .step s (.callingHost c.plain)
  | .delivering d (.call s base f c) => .delivering d (.call s base f c.plain)
  | a => a

theorem Activity.shape_withCalling {a : Activity} {c c' : Calling} (calls : a.calling? = some c)
    (same : c'.plain = c.plain) : (a.withCalling c').shape = a.shape := by
  cases a with
  | step s waiting =>
    cases waiting with
    | calling | callingHost =>
      obtain rfl := Option.some.inj calls
      rw [withCalling, shape, shape, same]
    | _ => cases calls
  | delivering d errand =>
    cases errand with
    | call step base f c =>
      obtain rfl := Option.some.inj calls
      rw [withCalling, shape, shape, same]
    | _ => cases calls
  | _ => cases calls

namespace World

variable {w w' w'' : World} {id : SessionId}

/-- Whether nothing has happened to the runtimes, and nothing begun or ended. -/
structure Calm (w w' : World) : Prop where
  shapes : w'.activities.map Activity.shape = w.activities.map Activity.shape
  names : w'.names = w.names
  directory : w'.directory = w.directory
  ages : w.Ages w'
  sessions : ∀ id : SessionId, Option.Rel Session.Calm w.sessions[id]? w'.sessions[id]?

theorem Calm.of_same (activities : w'.activities = w.activities) (names : w'.names = w.names)
    (directory : w'.directory = w.directory) (sessions : w'.sessions = w.sessions)
    (ages : w.Ages w') : w.Calm w' := by
  refine ⟨by rw [activities], names, directory, ages, fun id => ?_⟩
  rw [sessions]
  cases w.sessions[id]? with
  | none => exact .none
  | some s => exact .some (.refl s)

theorem Calm.refl (w : World) : w.Calm w := .of_same rfl rfl rfl rfl (.refl w)

/-- Neither sessions nor callables change. -/
theorem Calm.aside (activities : w'.activities = w.activities) (names : w'.names = w.names)
    (directory : w'.directory = w.directory) (sessions : w'.sessions = w.sessions)
    (callables : w'.callables = w.callables) (made : w'.nextCallable = w.nextCallable)
    (issued : w'.issued = w.issued) (dropped : w'.dropped = w.dropped) : w.Calm w' :=
  .of_same activities names directory sessions (.of_same issued.ge made callables dropped)

theorem Calm.trans (h : w.Calm w') (h' : w'.Calm w'') : w.Calm w'' := by
  refine ⟨h'.shapes.trans h.shapes, h'.names.trans h.names, h'.directory.trans h.directory,
    h.ages.trans h'.ages, fun id => ?_⟩
  have first := h.sessions id
  have second := h'.sessions id
  revert first second
  cases w.sessions[id]? <;> cases w'.sessions[id]? <;> cases w''.sessions[id]? <;>
    intro first second <;> cases first <;> cases second
  · exact .none
  · rename_i calm calm'
    exact .some (calm.trans calm')

theorem Calm.withSession {s s' : Session} (hs : w.sessions[id]? = some s) (h : s.Calm s') :
    w.Calm (w.withSession id s') := by
  refine ⟨rfl, rfl, rfl, .of_same (Nat.le_refl _) rfl rfl rfl, fun i => ?_⟩
  by_cases here : i = id
  · subst here
    rw [hs, getElem?_withSession_self]
    exact .some h
  · rw [getElem?_withSession_of_ne here]
    cases w.sessions[i]? with
    | none => exact .none
    | some u => exact .some (.refl u)

/-- A session that is there is still there. -/
theorem Calm.some (h : w.Calm w') {s : Session} (hs : w.sessions[id]? = some s) :
    ∃ s', w'.sessions[id]? = .some s' ∧ s.Calm s' := by
  have here := h.sessions id
  rw [hs] at here
  cases hs' : w'.sessions[id]? with
  | none => rw [hs'] at here; cases here
  | some s' =>
    rw [hs'] at here
    cases here with
    | some calm => exact ⟨s', rfl, calm⟩

/-- A session that is there now was there before. -/
theorem Calm.before (h : w.Calm w') {s' : Session} (hs : w'.sessions[id]? = .some s') :
    ∃ s, w.sessions[id]? = .some s ∧ s.Calm s' := by
  have here := h.sessions id
  rw [hs] at here
  cases hs' : w.sessions[id]? with
  | none => rw [hs'] at here; cases here
  | some s =>
    rw [hs'] at here
    cases here with
    | some calm => exact ⟨s, rfl, calm⟩

/-- Whether a property of worlds is about the runtimes, and about what is in progress. -/
def Steady (I : World → Prop) : Prop := ∀ w w', I w → w.Calm w' → I w'

theorem steady_calm (w : World) : Steady w.Calm := fun _ _ h h' => h.trans h'

/-- Whether host code runs on all sessions that are not closed. -/
def Rests (w : World) : Prop :=
  ∀ (id : SessionId) (s : Session), w.sessions[id]? = some s → s.active.isSome → s.Rests

theorem Rests.calm (h : w.Rests) (calm : w.Calm w') : w'.Rests := by
  intro id s' hs' active
  obtain ⟨s, hs, still, -⟩ := calm.before hs'
  exact (h id s hs (still.active ▸ active)).still still

/-! ## Work on sessions, and letting go -/

section

variable {I : World → Prop} (hI : Steady I)

include hI

theorem calm_same {α : Type} {x : Act α} (activities : ∀ w, (x.run w).2.activities = w.activities)
    (names : ∀ w, (x.run w).2.names = w.names) (directory : ∀ w, (x.run w).2.directory = w.directory)
    (sessions : ∀ w, (x.run w).2.sessions = w.sessions) (ages : ∀ w : World, w.Ages (x.run w).2) :
    Preserves I x := fun w h =>
  hI w _ h (.of_same (activities w) (names w) (directory w) (sessions w) (ages w))

theorem calm_onSession {α : Type} [Inhabited α] {op : Op α}
    (calm : ∀ s : Session, s.Calm (op.run s).2) : Preserves I (onSession id op) := by
  intro w h
  refine hI w _ h ?_
  cases hs : w.sessions[id]? with
  | none => rw [onSession_run_none hs]; exact .refl w
  | some s => rw [onSession_run_some hs]; exact .withSession hs (calm s)

theorem calm_report (what : Happening) (other : what.dropped? = none) : Preserves I (report what) :=
  calm_same hI (fun _ => rfl) (fun _ => rfl) (fun _ => rfl) (fun _ => rfl) fun w =>
    .of_same (Nat.le_refl _) rfl rfl (dropped_report_other w other)

theorem calm_chore (c : Chore) : Preserves I (chore c) := by
  cases c with
  | value v => cases v <;> exact .pure _
  | cell session k =>
    exact (calm_onSession hI fun s => Session.still_withdraw (Session.gentle_calm s) k s
      (.refl s)).bind fun _ => .pure _
  | settle session n =>
    exact (calm_onSession hI fun s => Session.still_settle (Session.gentle_calm s) n s
      (.refl s)).bind fun _ => .pure _
  | callable f =>
    refine .get_bind fun w h => ?_
    cases hc : w.callables[f]? with
    | none => exact h
    | some c =>
      dsimp only
      split
      · rename_i more
        exact hI w _ h (.of_same rfl rfl rfl rfl (.replace hc (Nat.sub_pos_of_lt more) rfl))
      · cases watched : c.code.watched
        · have notice : c.code.notice? = none := if_neg (by simp [watched])
          refine hI w _ h (.of_same rfl rfl rfl rfl (.erase hc rfl rfl rfl ?_))
          rw [← Multiset.cons_zero, Multiset.filterMap_cons_none _ _ notice]
          exact (add_zero _).symm
        · have notice : c.code.notice? = some c.code.name := if_pos watched
          refine hI w _ h (.of_same rfl rfl rfl rfl (.erase hc rfl rfl rfl ?_))
          rw [← Multiset.cons_zero, Multiset.filterMap_cons_some _ _ _ notice, Multiset.add_cons]
          exact (dropped_report w _).trans (congrArg _ (add_zero _).symm)

theorem calm_chores (fuel : Nat) (cs : List Chore) : Preserves I (chores fuel cs) := by
  induction fuel generalizing cs with
  | zero => exact .pure _
  | succ fuel ih =>
    cases cs with
    | nil => exact .pure _
    | cons c cs => exact (calm_chore hI c).bind fun _ => ih _

theorem calm_release (cs : List Chore) : Preserves I (release cs) := by
  unfold release
  split
  · exact .pure _
  · exact .get_bind fun w h => calm_chores hI _ _ w h

theorem calm_dropValues (vs : List Value) : Preserves I (dropValues vs) := calm_release hI _

theorem calm_dropValue (v : Value) : Preserves I (dropValue v) := calm_dropValues hI _

theorem calm_dropSlots (slots : Slots) : Preserves I (dropSlots slots) := calm_dropValues hI _

theorem calm_retain (f : CallableId) : Preserves I (retain f) :=
  calm_same hI (fun _ => rfl) (fun _ => rfl) (fun _ => rfl) (fun _ => rfl) fun w =>
    .modify w f (fun _ _ => Nat.succ_pos _) fun _ => rfl

theorem calm_retainAll (fs : List CallableId) : Preserves I (retainAll fs) := by
  induction fs with
  | nil => exact .pure _
  | cons f fs ih =>
    rw [retainAll, List.forM_eq_forM, List.forM_cons]
    exact (calm_retain hI f).bind fun _ => ih

theorem calm_releaseOutbound (session : SessionId) (outs : List Session.Outbound) :
    Preserves I (releaseOutbound session outs) := calm_release hI _

theorem calm_newCallable (code : CallableExpr) (captured : Slots) :
    Preserves I (newCallable code captured) :=
  calm_same hI (fun _ => rfl) (fun _ => rfl) (fun _ => rfl) (fun _ => rfl) fun w =>
    .new w Nat.one_pos

/-! ## Slots -/

omit hI in
theorem shapes_modifyFrame (change : Frame → Frame)
    (same : ∀ f : Frame, (change f).callable = f.callable) (as : List Activity) :
    (modifyFrame change as).map Activity.shape = as.map Activity.shape := by
  induction as with
  | nil => rfl
  | cons a as ih =>
    cases a with
    | program frame rest =>
      cases frame with
      | none => rfl
      | some f => simp [modifyFrame, Activity.shape, same]
    | _ => simp [modifyFrame, ih]

omit hI in
theorem calm_setSlotAt (w : World) (place : Loan) (slot : Option Slot) :
    w.Calm (w.setSlotAt place slot) := by
  cases place with
  | ofWorld => exact .aside rfl rfl rfl rfl rfl rfl rfl rfl
  | ofCallable f => exact .of_same rfl rfl rfl rfl (.modify w f (fun _ owned => owned) fun _ => rfl)
  | ofFrame name =>
    have shapes := shapes_modifyFrame (fun f => { f with slots := putSlot f.slots name slot })
      (fun _ => rfl) w.activities
    exact ⟨shapes, rfl, rfl, .of_same (Nat.le_refl _) rfl rfl rfl, (Calm.refl w).sessions⟩

omit hI in
theorem shapes_entrust {place : Loan} {v : Value} {as bs : List Activity}
    (h : entrust place v as = some bs) : bs.map Activity.shape = as.map Activity.shape := by
  induction as generalizing bs with
  | nil => cases h
  | cons a as ih =>
    unfold entrust at h
    split at h
    · rename_i cs hc
      cases h
      rw [List.map_cons, List.map_cons, ih hc]
    · split at h
      · obtain ⟨c, calls, rfl⟩ := Option.map_eq_some_iff.mp h
        rw [List.map_cons, List.map_cons]
        exact congrArg (· :: _) (Activity.shape_withCalling calls rfl)
      · cases h

omit hI in
theorem calm_filledSlot (name : String) : Preserves I (filledSlot name).run := by
  refine .tryGet fun w h => ?_
  split
  · exact h
  · split <;> exact h

theorem calm_takeSlot (name : String) : Preserves I (takeSlot name).run := by
  refine .tryBind (calm_filledSlot name) fun p => ?_
  have taken : Preserves I (do
      modify fun w => w.setSlotAt p.1 none
      return p.2.value : Try Value).run :=
    .tryBind (.lift (.modify fun w h => hI w _ h (calm_setSlotAt w _ _))) fun _ => .tryPure _
  dsimp only
  split
  · exact .tryBind (.throw _) fun _ => taken
  · exact taken

theorem calm_storeSlot (name : String) (v : Value) : Preserves I (storeSlot name v).run := by
  refine .tryGet fun w h => ?_
  split
  · exact Preserves.tryBind (calm_dropValue hI v).lift (fun _ => .throw _) w h
  · rename_i place _
    have stored : Preserves I (modify fun w => w.setSlotAt place (some ⟨v, 0⟩) : Act PUnit) :=
      .modify fun w h => hI w _ h (calm_setSlotAt w _ _)
    split
    · exact stored w h
    · rename_i old _
      refine Preserves.tryBind stored.lift (fun _ => ?_) w h
      split
      · exact (calm_dropValue hI old.value).lift
      · refine .tryGet fun w h => ?_
        split
        · rename_i bs hb
          exact hI w _ h
            ⟨shapes_entrust hb, rfl, rfl, .of_same (Nat.le_refl _) rfl rfl rfl, (Calm.refl w).sessions⟩
        · exact calm_dropValue hI old.value w h

omit hI in
theorem calm_unborrow (w : World) (place : Loan) : w.Calm (w.unborrow place) := by
  unfold unborrow
  split
  · exact calm_setSlotAt w _ _
  · exact .refl w

theorem calm_giveBack (c : Calling) : Preserves I (giveBack c) := by
  unfold giveBack
  split
  · exact calm_dropValue hI _
  · exact .modify fun w h => hI w _ h (calm_unborrow w _)

theorem calm_keepOrDrop (into : Option String) (v : Value) : Preserves I (keepOrDrop into v).run := by
  cases into with
  | some name => exact calm_storeSlot hI name v
  | none => exact (calm_dropValue hI v).lift

/-! ## The ends of steps -/

theorem calm_keepAnswer (v : Value) (into : Option String) : Preserves I (keepAnswer v into).run :=
  .tryBind (calm_keepOrDrop hI into v) fun _ => .tryPure _

omit hI in
theorem calm_sessionNamed (name : String) : Preserves I (sessionNamed name).run :=
  .tryGet fun w h => by cases w.names.find? fun e => e.1 == name <;> exact h

theorem calm_setControl (c : Control) : Preserves I (setControl c) :=
  .modify fun w h => hI w _ h (.aside rfl rfl rfl rfl rfl rfl rfl rfl)

theorem calm_goOn (step : Step) (r : Except Mishap Answer) : Preserves I (goOn step r) := by
  cases r with
  | ok a => exact calm_setControl hI _
  | error mishap =>
    refine .get_bind fun w h => ?_
    split <;> exact calm_setControl hI _ w h

theorem calm_finishStep (step : Step) (r : Except Mishap Answer) :
    Preserves I (finishStep step r) := by
  have shape : finishStep step r = if !step.quiet then (do report (.result r); goOn step r)
      else goOn step r := rfl
  rw [shape]
  split
  · exact (calm_report hI _ rfl).bind fun _ => calm_goOn hI step r
  · exact calm_goOn hI step r

theorem calm_storeResults (names : List String) (vs : List Value) :
    Preserves I (storeResults names vs).run := by
  induction vs generalizing names with
  | nil => cases names <;> exact .tryPure _
  | cons v vs ih =>
    cases names with
    | nil => exact (calm_dropValues hI (v :: vs)).lift
    | cons name names =>
      rw [storeResults]
      refine .tryBind (.tryCatch (calm_storeSlot hI name v) fun _ => ?_) fun _ => ih names
      exact .tryBind (calm_dropValues hI vs).lift fun _ => .throw _

theorem calm_callAnswer (c : Calling) (vs : List Value) : Preserves I (callAnswer c vs).run :=
  .tryBind (calm_storeResults hI c.into vs) fun _ => .tryPure _

theorem calm_giveArgsBack (args : List (Value × Option String)) : Preserves I (args.forM fun
    | (v, some slot) => do
      let _ ← (storeSlot slot v).run
    | (_, none) => return () : Act Unit) := by
  induction args with
  | nil => exact .pure _
  | cons a args ih =>
    obtain ⟨v, slot⟩ := a
    rw [List.forM_eq_forM, List.forM_cons, ← List.forM_eq_forM]
    cases slot with
    | none => exact ih
    | some slot => exact .bind ((calm_storeSlot hI slot v).bind fun _ => .pure _) fun _ => ih

theorem calm_endLoans (c : Calling) : Preserves I (endLoans c) := by
  rw [endLoans]
  exact (calm_giveBack hI c).bind fun _ => (calm_giveArgsBack hI c.args).bind fun _ =>
    calm_dropValues hI _

/-- The end of a call step. -/
theorem calm_finishCall (step : Step) (c : Calling) (r : Except Mishap (List Value)) :
    Preserves I (finishCall step c r) := by
  refine (calm_endLoans hI c).bind fun _ => ?_
  cases r with
  | error mishap => exact calm_finishStep hI step _
  | ok vs => exact (calm_callAnswer hI c vs).bind fun r => calm_finishStep hI step r

end

/-! ## Making values -/

section

variable {I : World → Prop} (hI : Steady I) (rests : ∀ w, I w → w.Rests)

include hI rests

/-- An operation that fails on a session that is closed. -/
theorem preserves_attemptOn {α : Type} {op : Attempt α}
    (closed : ∀ s : Session, s.active = none → s.Calm (op.run.run s).2)
    (calm : ∀ J : Session → Prop, Session.Gentle J → (∀ s, J s → s.Rests) → Preserves J op.run) :
    Preserves I (attemptOn id op) := by
  intro w h
  refine hI w _ h ?_
  rw [attemptOn]
  cases hs : w.sessions[id]? with
  | none => rw [onSession_run_none hs]; exact .refl w
  | some s =>
    rw [onSession_run_some hs]
    refine .withSession hs ?_
    cases active : s.active with
    | none => exact closed s active
    | some t =>
      have here := rests w h id s hs (by rw [active]; rfl)
      exact calm s.Calm (Session.gentle_calm s) (fun _ calm => here.still calm.still) s (.refl s)

theorem preserves_reanchor (ref : Ref) : Preserves I (reanchor ref).run := by
  refine .tryBind (.lift (preserves_attemptOn hI rests (fun s active => ?_)
    fun J hJ rests => Session.preserves_reanchor hJ rests ref)) fun r => ?_
  · have asleep : Session.thread.run.run s = (.error .sessionClosed, s) := by
      rw [Session.thread_run, active]
      rfl
    rw [Session.reanchor, try_bind_error asleep]
    exact .refl s
  · cases r
    · exact .throw _
    · exact .tryPure _

theorem preserves_copy (v : Value) : Preserves I (copy v).run := by
  cases v with
  | reference r => exact .tryBind (preserves_reanchor hI rests r) fun _ => .tryPure _
  | function r => exact .tryBind (preserves_reanchor hI rests r) fun _ => .tryPure _
  | callable f => exact .tryBind (calm_retain hI f).lift fun _ => .tryPure _
  | _ => exact .tryPure _

omit hI rests in
theorem preserves_definedCallable (name : String) : Preserves I (definedCallable name).run :=
  .tryGet fun w h => by cases w.defined[name]? <;> exact h

omit rests in
theorem calm_anotherOf (name : String) : Preserves I (anotherOf name).run :=
  .tryBind (preserves_definedCallable name) fun _ =>
    .tryBind (calm_retain hI _).lift fun _ => .tryPure _

omit hI rests

mutual

theorem preserves_value (hI : Steady I) (rests : ∀ w, I w → w.Rests) (e : ValueExpr) :
    Preserves I (value e).run := by
  cases e with
  | constant c =>
    rw [value]
    exact .tryPure _
  | take slot =>
    rw [value]
    exact calm_takeSlot hI slot
  | dup slot =>
    rw [value]
    exact .tryBind (calm_filledSlot slot) fun p => preserves_copy hI rests p.2.value
  | callable f =>
    rw [value]
    exact .tryBind (preserves_callable hI rests f) fun _ => .tryPure _
  | named name =>
    rw [value]
    exact calm_anotherOf hI name
  | malformed =>
    rw [value]
    exact .throw _

theorem preserves_callable (hI : Steady I) (rests : ∀ w, I w → w.Rests) (f : CallableExpr) :
    Preserves I (callable f).run := by
  cases f with
  | mk name body results captures watched quiet =>
    rw [callable]
    exact .tryBind (preserves_captureAll hI rests captures ∅) fun _ => (calm_newCallable hI _ _).lift
  | malformed =>
    rw [callable]
    exact .throw _

theorem preserves_captureAll (hI : Steady I) (rests : ∀ w, I w → w.Rests)
    (es : List (String × ValueExpr)) (slots : Slots) : Preserves I (captureAll es slots).run := by
  match es with
  | [] =>
    rw [captureAll]
    exact .tryPure _
  | (name, e) :: rest =>
    rw [captureAll]
    refine .tryBind (.tryCatch (preserves_value hI rests e) fun _ => ?_) fun v => ?_
    · exact .tryBind (calm_dropSlots hI slots).lift fun _ => .throw _
    · exact .tryBind (calm_dropValues hI _).lift fun _ => preserves_captureAll hI rests rest _

end

include hI rests

omit rests in
theorem preserves_splatFrom (fuel position : Nat) (taken : List Value) :
    Preserves I (splatFrom fuel position taken).run := by
  induction fuel generalizing position taken with
  | zero => exact .tryPure _
  | succ fuel ih =>
    rw [splatFrom]
    refine .tryGet fun w h => ?_
    split
    · exact h
    · split
      · exact h
      · refine Preserves.tryBind (.tryCatch (calm_takeSlot hI _) fun _ => ?_) (fun v => ih _ _) w h
        exact .tryBind (calm_dropValues hI _).lift fun _ => .throw _

theorem preserves_item (e : ItemExpr) : Preserves I (item e).run := by
  cases e with
  | one e => exact .tryBind (preserves_value hI rests e) fun _ => .tryPure _
  | nils count => exact .tryPure _
  | splat first =>
    exact .tryGet fun w h =>
      Preserves.tryBind (preserves_splatFrom hI _ first []) (fun _ => .tryPure _) w h
  | lend slot => exact .tryBind (calm_takeSlot hI slot) fun _ => .tryPure _

theorem preserves_items (es : List ItemExpr) : Preserves I (items es).run := by
  have all : ∀ done, Preserves I (itemsFrom done es).run := by
    induction es with
    | nil => exact fun _ => .tryPure _
    | cons e es ih =>
      intro done
      rw [itemsFrom]
      refine .tryBind (.tryCatch (preserves_item hI rests e) fun _ => ?_) fun vs => ih _
      exact .tryBind (calm_dropValues hI _).lift fun _ => .throw _
  exact all []

theorem preserves_bodyResults (f : Frame) : Preserves I (bodyResults f) := by
  refine .get_bind fun w h => ?_
  refine Preserves.bind (preserves_items hI rests _) (fun r => ?_) w h
  cases r <;> exact .pure _

/-! ## Steps that are done at once -/

omit rests in
theorem calm_failure (e : FailureExpr) : Preserves I (failure e).run := by
  have fresh : Preserves I freshSessionId :=
    calm_same hI (fun _ => rfl) (fun _ => rfl) (fun _ => rfl) (fun _ => rfl) fun _ =>
      .of_same (Nat.le_succ _) rfl rfl rfl
  induction e with
  | plain f => exact .tryPure _
  | wrongSession => exact .tryBind fresh.lift fun _ => .tryBind fresh.lift fun _ => .tryPure _
  | marshal index source ih => exact .tryBind ih fun _ => .tryPure _
  | malformed => exact .throw _

theorem preserves_lookUp (id : SessionId) (path : String) :
    Preserves I (trySession id (Session.lookUp path)).run := by
  refine .tryBind (.lift (preserves_attemptOn hI rests (fun s active => ?_)
    fun J hJ rests => Session.preserves_lookUp hJ rests path)) fun r => ?_
  · have asleep : Session.thread.run.run s = (.error .sessionClosed, s) := by
      rw [Session.thread_run, active]
      rfl
    rw [Session.lookUp, try_bind_error asleep]
    exact .refl s
  · cases r
    · exact .throw _
    · exact .tryPure _

omit rests in
theorem calm_refuse {α : Type} (v : Value) (mishap : Mishap) :
    Preserves I (do dropValue v; throw mishap : Try α).run :=
  .tryBind (calm_dropValue hI v).lift fun _ => .throw _

omit rests in
theorem calm_disowned (fs : List CallableId) (a : Answer) :
    Preserves I (do release (fs.map Chore.callable); return a : Try Answer).run :=
  .tryBind (calm_release hI _).lift fun _ => .tryPure _

theorem preserves_extract (e : ValueExpr) (as : Extraction) (into : Option String) :
    Preserves I (do
      let v ← value e
      match extractAs as v with
      | .error mishap =>
        dropValue v
        throw mishap
      | .ok (shown, some kept) =>
        keepOrDrop into kept
        return .extracted shown
      | .ok (shown, none) =>
        dropValue v
        return .extracted shown : Try Answer).run := by
  refine .tryBind (preserves_value hI rests e) fun v => ?_
  split
  · exact calm_refuse hI v _
  · exact .tryBind (calm_keepOrDrop hI into _) fun _ => .tryPure _
  · exact .tryBind (calm_dropValue hI v).lift fun _ => .tryPure _

theorem preserves_clone (slot : String) (into : Option String) :
    Preserves I (do
      let (_, s) ← filledSlot slot
      match s.value with
      | .reference ref => keepAnswer (.reference (← reanchor ref)) into
      | .function ref => keepAnswer (.function (← reanchor ref)) into
      | _ => throw (.misuse .notReference) : Try Answer).run := by
  refine .tryBind (calm_filledSlot slot) fun p => ?_
  obtain ⟨place, v, borrows⟩ := p
  cases v with
  | reference r =>
    exact .tryBind (preserves_reanchor hI rests r) fun copy => calm_keepAnswer hI _ into
  | function r =>
    exact .tryBind (preserves_reanchor hI rests r) fun copy => calm_keepAnswer hI _ into
  | _ => exact .throw _

/-- Steps that are done at once, but for those that work on the session maps. -/
theorem preserves_immediate {a : Action} {act : Try Answer} (h : immediate a = some act)
    (other : a.isMapped = false) : Preserves I act.run := by
  have modified : ∀ {f : World → World} {y : Try Answer}, Preserves I y.run →
      (∀ w : World, w.Calm (f w)) →
      Preserves I (ExceptT.lift (modify f : Act PUnit) >>= fun _ => y : Try Answer).run :=
    fun hy calm => .tryBind (.lift (.modify fun w h => hI w _ h (calm w))) fun _ => hy
  cases a with
  | openSession | showMap | holdMap | freeMaps => cases other
  | lookUp name path into =>
    obtain rfl := Option.some.inj h
    exact .tryBind (calm_sessionNamed name) fun id =>
      .tryBind (preserves_lookUp hI rests id path) fun v => calm_keepAnswer hI v into
  | lookUpFunction name path into =>
    obtain rfl := Option.some.inj h
    refine .tryBind (calm_sessionNamed name) fun id =>
      .tryBind (preserves_lookUp hI rests id path) fun v => ?_
    cases v with
    | function r => exact calm_keepAnswer hI _ into
    | _ => exact calm_refuse hI _ _
  | define name f =>
    obtain rfl := Option.some.inj h
    refine .tryBind (preserves_callable hI rests f) fun id => .tryGet fun w hw => ?_
    refine modified (calm_disowned hI _ _) (fun w => ?_) w hw
    exact .aside rfl rfl rfl rfl rfl rfl rfl rfl
  | undefine name =>
    obtain rfl := Option.some.inj h
    refine .tryGet fun w hw => ?_
    refine modified (calm_disowned hI _ _) (fun w => ?_) w hw
    exact .aside rfl rfl rfl rfl rfl rfl rfl rfl
  | extract e as into =>
    obtain rfl := Option.some.inj h
    exact preserves_extract hI rests e as into
  | put slot e =>
    obtain rfl := Option.some.inj h
    exact .tryBind (preserves_value hI rests e) fun v =>
      .tryBind (calm_storeSlot hI slot v) fun _ => .tryPure _
  | discard slot =>
    obtain rfl := Option.some.inj h
    exact .tryBind (calm_takeSlot hI slot) fun v =>
      .tryBind (calm_dropValue hI v).lift fun _ => .tryPure _
  | release slot =>
    obtain rfl := Option.some.inj h
    refine .tryBind (calm_takeSlot hI slot) fun v =>
      .tryBind (calm_dropValue hI v).lift fun _ => ?_
    split
    · exact .tryPure _
    · exact .throw _
  | clone slot into =>
    obtain rfl := Option.some.inj h
    exact preserves_clone hI rests slot into
  | toReference slot into =>
    obtain rfl := Option.some.inj h
    refine .tryBind (calm_takeSlot hI slot) fun v => ?_
    cases v with
    | function r => exact calm_keepAnswer hI _ into
    | _ => exact calm_refuse hI _ _
  | describe slot =>
    obtain rfl := Option.some.inj h
    exact .tryBind (calm_filledSlot slot) fun _ => .tryPure _
  | compare x y =>
    obtain rfl := Option.some.inj h
    exact .tryBind (calm_filledSlot x) fun _ =>
      .tryBind (calm_filledSlot y) fun _ => .tryPure _
  | countPins name =>
    obtain rfl := Option.some.inj h
    refine .tryBind (calm_sessionNamed name) fun id =>
      .tryBind (.lift (calm_onSession hI fun s => ?_)) fun _ => .tryPure _
    exact .refl s
  | status name =>
    obtain rfl := Option.some.inj h
    refine .tryBind (calm_sessionNamed name) fun id =>
      .tryBind (.lift (calm_onSession hI fun s => ?_)) fun _ => .tryPure _
    exact .refl s
  | fail e =>
    obtain rfl := Option.some.inj h
    exact .tryBind (calm_failure hI e) fun _ => .throw _
  | malformed =>
    obtain rfl := Option.some.inj h
    exact .throw _
  | _ => cases h

end

end World

end ScriptBridge.Host

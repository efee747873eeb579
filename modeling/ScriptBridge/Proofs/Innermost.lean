import ScriptBridge.Proofs.Calm
import ScriptBridge.Proofs.Refusals

/-!
# ScriptBridge.Proofs.Innermost

Only what is innermost changes in a turn.  The activities in progress are a stack: a turn ends the
innermost of them, or lets it go on, and begins others on top.  What lies below stays as it is, but
for the slots that activities hold and what was replaced in those they borrow.  There is one
exception: the call of a host callable ends together with the body that lies on it.

Main facts:

* `World.covers_advance` — what lies below the innermost activity is there after a turn;
* `World.covers_run` — what lies below is there as long as more activities are in progress.
-/

namespace ScriptBridge.Host

/-- Whether an activity is the call of a host callable, which ends together with its body. -/
def Activity.isEntered : Activity → Bool
  | .serving .. | .step _ (.callingHost _) => true
  | _ => false

theorem Activity.isEntered_shape (a : Activity) : a.shape.isEntered = a.isEntered := by
  cases a with
  | step s waiting => cases waiting <;> rfl
  | delivering d errand => cases errand <;> rfl
  | _ => rfl

namespace World

variable {α : Type} {w w' : World} {base rest : List Activity} {count : Nat} {a : Activity} {x : Act α}
  {id : SessionId}

/-- Whether at least so many activities lie on others. -/
def Covers (count : Nat) (base : List Activity) (w : World) : Prop :=
  ∃ above : List Activity, count ≤ above.length
    ∧ w.activities.map Activity.shape = above ++ base.map Activity.shape

theorem Covers.of_eq (h : w.activities = base) : w.Covers 0 base := ⟨[], Nat.le_refl 0, by rw [h]; rfl⟩

theorem Covers.mono {fewer : Nat} (h : w.Covers count base) (le : fewer ≤ count) :
    w.Covers fewer base := by
  obtain ⟨above, enough, eq⟩ := h
  exact ⟨above, Nat.le_trans le enough, eq⟩

theorem Covers.congr (h : w.Covers count base)
    (shapes : w'.activities.map Activity.shape = w.activities.map Activity.shape) :
    w'.Covers count base := by
  obtain ⟨above, enough, eq⟩ := h
  exact ⟨above, enough, shapes.trans eq⟩

theorem steady_covers : Steady (Covers count base) := fun _ _ h calm => h.congr calm.shapes

/-- As many activities are in progress as lie on the others, and these. -/
theorem Covers.length (h : w.Covers count base) : count + base.length ≤ w.activities.length := by
  obtain ⟨above, enough, eq⟩ := h
  have all := congrArg List.length eq
  rw [List.length_map, List.length_append, List.length_map] at all
  omega

/-- What lies on others lies on fewer of them. -/
theorem Covers.tail (h : w.Covers count (a :: base)) : w.Covers (count + 1) base := by
  obtain ⟨above, enough, eq⟩ := h
  refine ⟨above ++ [a.shape], ?_, ?_⟩
  · rw [List.length_append]
    exact Nat.add_le_add_right enough 1
  · rw [eq, List.map_cons, List.append_assoc]
    rfl

/-- The innermost activity does not matter to what it lies on. -/
theorem Covers.replace (h : w.Covers (count + 1) base) (top : w.activities = a :: rest) (b : Activity) :
    Covers (count + 1) base { w with activities := b :: rest } := by
  obtain ⟨above, enough, eq⟩ := h
  cases above with
  | nil => cases enough
  | cons c above =>
    rw [top] at eq
    exact ⟨b.shape :: above, enough, congrArg (b.shape :: ·) (List.cons.inj eq).2⟩

/-! ## Parts of a turn -/

theorem covers_same (same : ∀ w, (x.run w).2.activities = w.activities) :
    Preserves (Covers count base) x := fun w h => h.congr (by rw [same])

theorem covers_onSession [Inhabited α] {op : Op α} :
    Preserves (Covers count base) (onSession id op) :=
  fun _ h => h.congr (congrArg _ activities_onSession)

theorem covers_begin (a : Activity) :
    Leads (Covers count base) (begin a) fun _ => Covers (count + 1) base := by
  rintro w ⟨above, enough, eq⟩
  exact ⟨a.shape :: above, Nat.succ_le_succ enough, congrArg (a.shape :: ·) eq⟩

theorem covers_began (a : Activity) : Preserves (Covers count base) (begin a) :=
  fun w h => (covers_begin a w h).mono (Nat.le_succ _)

theorem covers_finishTop : Leads (Covers (count + 1) base) finishTop fun _ => Covers count base := by
  rintro w ⟨above, enough, eq⟩
  cases above with
  | nil => cases enough
  | cons b above =>
    refine ⟨above, Nat.le_of_succ_le_succ enough, ?_⟩
    have dropped := congrArg (List.drop 1) eq
    rwa [← List.map_drop] at dropped

theorem covers_replaceTop (a : Activity) : Leads (Covers (count + 1) base) (replaceTop a)
    fun _ => Covers (count + 1) base :=
  covers_finishTop.bind fun _ => covers_begin a

theorem covers_beginDelivery {t : Script.ThreadId} {outs : List Session.Outbound} {errand : Errand} :
    Preserves (Covers count base) (beginDelivery id t outs errand) :=
  (covers_began _).bind fun _ => calm_setControl steady_covers _

/-- Goes on with a runtime. -/
theorem covers_resumed {op op' : Op Unit} : Preserves (Covers count base) (do
    onSession id op
    onSession id op'
    setControl (.script id) : Act Unit) :=
  covers_onSession.bind fun _ => covers_onSession.bind fun _ => calm_setControl steady_covers _

theorem covers_delivered (d : Delivery) (errand : Errand) :
    Preserves (Covers count base) (delivered d errand) := by
  cases errand with
  | call step base f c =>
    exact covers_onSession.bind fun _ => (covers_began _).bind fun _ => calm_setControl steady_covers _
  | assign step base v =>
    exact covers_onSession.bind fun _ => covers_onSession.bind fun _ =>
      (calm_releaseOutbound steady_covers _ _).bind fun _ => (calm_dropValue steady_covers v).bind
        fun _ => calm_finishStep steady_covers step _
  | results previous vs =>
    exact (calm_releaseOutbound steady_covers _ _).bind fun _ =>
      (calm_dropValues steady_covers vs).bind fun _ => covers_resumed

theorem covers_undelivered (d : Delivery) (f : Failure) (errand : Errand) :
    Preserves (Covers count base) (undelivered d f errand) := by
  cases errand with
  | call step base g c =>
    exact covers_onSession.bind fun _ => (calm_releaseOutbound steady_covers _ _).bind fun _ =>
      calm_finishCall steady_covers step c _
  | assign step base v =>
    exact covers_onSession.bind fun _ => (calm_releaseOutbound steady_covers _ _).bind fun _ =>
      (calm_dropValue steady_covers v).bind fun _ => calm_finishStep steady_covers step _
  | results previous vs =>
    exact (calm_releaseOutbound steady_covers _ _).bind fun _ =>
      (calm_dropValues steady_covers vs).bind fun _ => covers_resumed

theorem covers_deliverNext (d : Delivery) (errand : Errand) :
    Leads (Covers 1 base) (deliverNext d errand) fun _ => Covers 0 base := by
  have less : ∀ w : World, w.Covers 1 base → w.Covers 0 base := fun _ h => h.mono (Nat.zero_le 1)
  unfold deliverNext
  split
  · exact (covers_replaceTop _).bind fun _ => (Leads.of_preserves covers_onSession).mono less
      fun _ _ h => h
  · split
    · exact covers_finishTop.bind fun _ => .of_preserves (covers_delivered d errand)
    · refine Leads.bind (.of_preserves covers_onSession) fun r => ?_
      cases r with
      | error f => exact covers_finishTop.bind fun _ => .of_preserves (covers_undelivered d f errand)
      | ok r =>
        cases r with
        | none =>
          exact Leads.bind (.of_preserves covers_onSession) fun _ =>
            (covers_replaceTop _).mono (fun _ h => h) fun _ => less
        | some r =>
          exact Leads.bind (.of_preserves (calm_retain steady_covers r.2)) fun _ =>
            (covers_replaceTop _).mono (fun _ h => h) fun _ => less

theorem covers_answerScript (previous : Option Script.ThreadId) (callable : CallableId)
    (ending : Ending) : Preserves (Covers count base) (answerScript id previous callable ending) := by
  refine (calm_release steady_covers _).bind fun _ => ?_
  cases ending with
  | failed f => exact covers_resumed
  | panicked text => exact covers_resumed
  | returned vs =>
    refine Preserves.bind covers_onSession fun r => ?_
    cases r with
    | error f => exact (calm_dropValues steady_covers vs).bind fun _ => covers_resumed
    | ok r => exact (calm_retainAll steady_covers _).bind fun _ => covers_beginDelivery

theorem covers_enterCallable (f : CallableId) (args : List Value) :
    Preserves (Covers count base) (enterCallable f args) := by
  refine .get_bind fun w h => ?_
  cases w.callables[f]? with
  | none =>
    exact Preserves.bind (calm_dropValues steady_covers args)
      (fun _ => calm_setControl steady_covers _) w h
  | some c =>
    have body : Preserves (Covers count base) (do
        begin (.program (some ⟨f, argumentSlots 1 args ∅⟩) c.code.body)
        setControl .proceed : Act Unit) :=
      (covers_began _).bind fun _ => calm_setControl steady_covers _
    cases quiet : c.code.quiet with
    | true =>
      simp only [quiet]
      exact body w h
    | false =>
      simp only [quiet]
      exact Preserves.bind (calm_report steady_covers _ rfl) (fun _ => body) w h

/-- Whether what lies on others can end without them: it is more than one activity, or does not lie on
the call of a callable. -/
structure Loose (base : List Activity) (w : World) : Prop where
  covers : w.Covers 1 base
  apart : w.Covers 2 base ∨ ∀ b ∈ base.head?, b.isEntered = false

theorem steady_loose : Steady (Loose base) := fun _ _ h calm =>
  ⟨h.covers.congr calm.shapes, h.apart.imp_left fun two => two.congr calm.shapes⟩

/-- The call of a callable ends with its body only if both lie on the others. -/
theorem Loose.both {b : Activity} (h : w.Loose base) (top : w.activities = a :: b :: rest)
    (entered : b.isEntered = true) : w.Covers 2 base := by
  obtain two | other := h.apart
  · exact two
  obtain ⟨above, enough, eq⟩ := h.covers
  obtain more | alone := Nat.lt_or_ge 1 above.length
  · exact ⟨above, more, eq⟩
  obtain ⟨c, rfl⟩ := List.length_eq_one_iff.mp (Nat.le_antisymm alone enough)
  rw [top] at eq
  have eq := (List.cons.inj eq).2
  cases base with
  | nil => cases eq
  | cons d base =>
    have same := (List.cons.inj eq).1
    have entered' : d.shape.isEntered = true := by rw [← same, b.isEntered_shape, entered]
    rw [d.isEntered_shape, other d rfl] at entered'
    cases entered'

/-- A body is left, with the call that lies below it. -/
theorem covers_leaveBody (ending : Ending) :
    Leads (Loose base) (leaveBody ending) fun _ => Covers 0 base := by
  refine Leads.bind (Q := fun _ => Loose base) (fun _ h => ⟨h.covers, h.apart⟩) fun _ =>
    .get_bind fun w h => ?_
  split
  · rename_i f steps id previous callable more top
    exact Leads.bind covers_finishTop (fun _ => covers_finishTop.bind fun _ =>
      .bind (.of_preserves (calm_dropSlots steady_covers _)) fun _ =>
        .of_preserves (covers_answerScript previous callable ending)) w (h.both top rfl)
  · rename_i f steps step c more top
    exact Leads.bind covers_finishTop (fun _ => covers_finishTop.bind fun _ =>
      .bind (.of_preserves (calm_dropSlots steady_covers _)) fun _ =>
        .of_preserves (calm_finishCall steady_covers step c _)) w (h.both top rfl)
  · exact calm_dropValues steady_covers _ w (h.covers.mono (Nat.zero_le 1))

/-! ## Steps -/

theorem covers_trySession {op : Attempt α} :
    Preserves (Covers count base) (trySession id op).run := by
  refine .tryBind (.lift covers_onSession) fun r => ?_
  cases r
  · exact .throw _
  · exact .tryPure _

theorem covers_beginExecute (step : Step) (name source : String) :
    Preserves (Covers count base) (beginExecute step name source) := by
  refine .bind (.tryBind (calm_sessionNamed name) fun id => .tryBind (.lift covers_onSession)
    fun _ => .tryBind covers_trySession fun _ => .tryPure _) fun r => ?_
  cases r with
  | error mishap => exact calm_finishStep steady_covers step _
  | ok r => exact (covers_began _).bind fun _ => calm_setControl steady_covers _

theorem covers_beginClose (step : Step) (name : String) :
    Preserves (Covers count base) (beginClose step name) := by
  refine (calm_sessionNamed name).bind fun r => ?_
  cases r with
  | error mishap => exact calm_finishStep steady_covers step _
  | ok id =>
    refine .get_bind fun w h => ?_
    split
    · exact calm_finishStep steady_covers step _ w h
    · exact Preserves.bind (covers_same (fun _ => rfl)) (fun _ => (covers_began _).bind fun _ =>
        covers_onSession.bind fun _ => calm_setControl steady_covers _) w h

/-- What holds while a step is prepared: host code runs on all sessions. -/
def Prepares (base : List Activity) (w : World) : Prop := w.Rests ∧ w.Covers 0 base

theorem steady_prepares : Steady (Prepares base) := fun _ _ h calm =>
  ⟨h.1.calm calm, h.2.congr calm.shapes⟩

theorem covers_beginAssign (step : Step) (name path : String) {e : Try Value} (create : Bool)
    (he : Preserves (Prepares base) e.run) :
    Leads (Prepares base) (beginAssign step name path e create) fun _ => Covers 0 base := by
  refine (Leads.of_preserves he).mono (fun _ h => h) (fun _ _ h => h.2) |>.bind fun r => .of_preserves ?_
  cases r with
  | error mishap => exact calm_finishStep steady_covers step _
  | ok v =>
    refine (calm_sessionNamed name).bind fun r => ?_
    cases r with
    | error mishap =>
      exact (calm_dropValue steady_covers v).bind fun _ => calm_finishStep steady_covers step _
    | ok id =>
      refine covers_onSession.bind fun height => Preserves.bind covers_onSession fun r => ?_
      cases r with
      | error f =>
        exact (calm_dropValue steady_covers v).bind fun _ => calm_finishStep steady_covers step _
      | ok r => exact (calm_retainAll steady_covers _).bind fun _ => covers_beginDelivery

theorem covers_beginScriptCall (step : Step) (ref : Ref) (c : Calling) :
    Preserves (Covers count base) (beginScriptCall step ref c) := by
  refine Preserves.bind covers_onSession fun r => ?_
  cases r with
  | error f => exact calm_finishCall steady_covers step c _
  | ok outs =>
    refine (calm_retainAll steady_covers _).bind fun _ => covers_onSession.bind fun height =>
      Preserves.bind covers_onSession fun r => ?_
    cases r with
    | error f =>
      exact (calm_releaseOutbound steady_covers _ _).bind fun _ =>
        calm_finishCall steady_covers step c _
    | ok r => exact covers_beginDelivery

/-- A call is prepared without a runtime. -/
theorem preserves_prepareCall {I : World → Prop} (steady : Steady I) (rests : ∀ w, I w → w.Rests)
    (slot : String) (args : List ItemExpr) (into : List String) (count : Bool) :
    Preserves I (prepareCall slot args into count).run := by
  refine .tryBind (calm_filledSlot slot) fun p => ?_
  refine .tryBind (.lift (.modify fun w h => steady w _ h (calm_setSlotAt w _ _))) fun _ => ?_
  refine .tryBind (.tryCatch (preserves_items steady rests args) fun _ => ?_) fun _ => .tryPure _
  exact .tryBind (calm_giveBack steady _).lift fun _ => .throw _

theorem covers_beginCall (step : Step) (slot : String) (args : List ItemExpr) (into : List String)
    (count : Bool) :
    Leads (Prepares base) (beginCall step slot args into count) fun _ => Covers 0 base := by
  have prepared : Preserves (Prepares base) (prepareCall slot args into count).run :=
    preserves_prepareCall steady_prepares (fun _ h => h.1) slot args into count
  refine ((Leads.of_preserves prepared).mono (fun _ h => h) fun _ _ h => h.2).bind fun r =>
    .of_preserves ?_
  cases r with
  | error mishap => exact calm_finishStep steady_covers step _
  | ok r =>
    obtain ⟨v, c⟩ := r
    cases v with
    | function ref => exact covers_beginScriptCall step ref c
    | callable f => exact (covers_began _).bind fun _ => covers_enterCallable f _
    | _ => exact calm_finishCall steady_covers step _ _

theorem covers_immediate {action : Action} {act : Try Answer} (h : immediate action = some act) :
    Leads (Prepares base) act.run fun _ => Covers 0 base := by
  cases mapped : action.isMapped with
  | false =>
    exact fun w hw =>
      (preserves_immediate steady_prepares (fun _ h => h.1) h mapped w hw).2
  | true =>
    cases action with
    | openSession | showMap | holdMap | freeMaps =>
      obtain rfl := Option.some.inj h
      exact fun w hw => hw.2.congr rfl
    | _ => cases mapped

theorem covers_beginStep (step : Step) :
    Leads (Prepares base) (beginStep step) fun _ => Covers 0 base := by
  have plain : ∀ {x : Act Unit}, Preserves (Covers 0 base) x →
      Leads (Prepares base) x fun _ => Covers 0 base := fun h w hw => h w hw.2
  have values := preserves_value (@steady_prepares base) fun _ h => h.1
  unfold beginStep
  split
  · rename_i act immediate
    exact (covers_immediate immediate).bind fun r => .of_preserves
      (calm_finishStep steady_covers step r)
  · split
    · exact plain (covers_beginExecute step _ _)
    · exact plain (covers_beginClose step _)
    · exact covers_beginAssign step _ _ _ (values _)
    · exact covers_beginAssign step _ _ _ (.tryBind (preserves_callable steady_prepares
        (fun _ h => h.1) _) fun _ => .tryPure _)
    · exact covers_beginAssign step _ _ _ (calm_anotherOf steady_prepares _)
    · exact covers_beginCall step _ _ _ _
    · refine plain (.get_bind fun w h => ?_)
      split
      · exact calm_setControl steady_covers _ w h
      · exact calm_finishStep steady_covers step _ w h
    · exact plain (calm_finishStep steady_covers step _)

/-! ## What a runtime waits for -/

theorem covers_receive : Preserves (Covers count base) (receive id) := by
  refine covers_onSession.bind fun previous => covers_onSession.bind fun cells =>
    covers_onSession.bind fun handle => ?_
  cases handle with
  | none => exact covers_onSession.bind fun _ => covers_resumed
  | some handle =>
    refine covers_onSession.bind fun found => ?_
    cases found with
    | none => exact covers_onSession.bind fun _ => covers_resumed
    | some callable =>
      refine (calm_retain steady_covers callable).bind fun _ => Preserves.bind covers_onSession fun r => ?_
      cases r with
      | error f => exact (calm_release steady_covers _).bind fun _ => covers_resumed
      | ok vs => exact (covers_began _).bind fun _ => covers_enterCallable callable vs

theorem covers_serve : Preserves (Covers count base) (serve id) := by
  refine Preserves.bind (covers_same fun _ => rfl) fun owner => ?_
  cases owner with
  | some owner => exact covers_receive
  | none => exact (covers_same fun _ => rfl).bind fun _ => calm_setControl steady_covers _

theorem covers_releaseHandle (target : Script.Value) :
    Preserves (Covers count base) (releaseHandle id target) := by
  refine covers_onSession.bind fun handle => ?_
  cases handle with
  | none => exact covers_onSession
  | some handle =>
    refine Preserves.bind (covers_same fun _ => rfl) fun owner => ?_
    have released : Preserves (Covers count base) (owner.forM (releasePin handle) : Act Unit) := by
      cases owner with
      | none => exact .pure _
      | some owner =>
        exact covers_onSession.bind fun _ => covers_onSession.bind fun _ =>
          (calm_release steady_covers _).bind fun _ => covers_onSession
    exact released.bind fun _ => covers_onSession

theorem covers_finishScript (raised : Bool) :
    Leads (Covers 1 base) (finishScript id raised) fun _ => Covers 0 base := by
  refine .get_bind fun w h => ?_
  split
  · refine Leads.bind covers_finishTop (fun _ => .of_preserves ?_) w h
    unfold finishExecuting
    split <;> exact covers_onSession.bind fun _ => calm_finishStep steady_covers _ _
  · refine Leads.bind covers_finishTop (fun _ => .of_preserves ?_) w h
    unfold finishCalling
    split
    · exact covers_onSession.bind fun _ => (calm_releaseOutbound steady_covers _ _).bind fun _ =>
        calm_finishCall steady_covers _ _ _
    · refine covers_onSession.bind fun cells => (calm_releaseOutbound steady_covers _ _).bind fun _ =>
        Preserves.bind covers_onSession fun r => ?_
      cases r <;> exact calm_finishCall steady_covers _ _ _
  · exact calm_setControl steady_covers _ w (h.mono (Nat.zero_le 1))

theorem covers_finishClose : Leads (Covers 1 base) (finishClose id) fun _ => Covers 0 base := by
  have closes : Preserves (Covers 1 base) (closeSession id) :=
    (covers_same fun _ => rfl).bind fun _ => covers_onSession
  refine Leads.bind (.of_preserves closes) fun callables =>
    .bind (.of_preserves (calm_release steady_covers _)) fun _ =>
      .bind (.of_preserves (covers_same fun _ => rfl)) fun _ => .get_bind fun w h => ?_
  split
  · exact Leads.bind covers_finishTop (fun _ => .of_preserves (calm_finishStep steady_covers _ _)) w h
  · exact calm_setControl steady_covers _ w (h.mono (Nat.zero_le 1))

theorem covers_attend (pause : Script.Pause) :
    Leads (Covers 1 base) (attend id pause) fun _ => Covers 0 base := by
  have less : ∀ {x : Act Unit}, Preserves (Covers 0 base) x →
      Leads (Covers 1 base) x fun _ => Covers 0 base := fun h w hw => h w (hw.mono (Nat.zero_le 1))
  cases pause with
  | invoked => exact less covers_serve
  | releasing target => exact less (covers_releaseHandle target)
  | collecting => exact less covers_onSession
  | returned => exact covers_finishScript false
  | raised => exact covers_finishScript true
  | closed => exact covers_finishClose
  | swept =>
    refine .get_bind fun w h => ?_
    split
    · exact Leads.bind covers_finishTop (fun _ => .of_preserves (calm_setControl steady_covers _)) w h
    · exact calm_setControl steady_covers _ w (h.mono (Nat.zero_le 1))

/-- A runtime runs, and then waits or does not. -/
theorem covers_runFor (steps : Nat) {idle : Act Unit} (still : Preserves (Covers 1 base) idle) :
    Leads (Covers 1 base) (do
      match ← onSession id (Session.runMachine steps) with
      | none => idle
      | some pause => attend id pause : Act Unit) fun _ => Covers 0 base := by
  refine Leads.bind (.of_preserves covers_onSession) fun pause => ?_
  cases pause with
  | none => exact fun w h => (still w h).mono (Nat.zero_le 1)
  | some pause => exact covers_attend pause

/-! ## Turns -/

theorem covers_sweep (budget : Nat) : Preserves (Covers count base) (sweep id budget) := by
  refine covers_onSession.bind fun can => ?_
  cases can with
  | false => exact .pure _
  | true => exact covers_onSession.bind fun _ => (covers_began _).bind fun _ =>
      calm_setControl steady_covers _

theorem covers_proceed : Leads (fun w => w.Rests ∧ w.Loose base) proceed fun _ => Covers 0 base := by
  refine .get_bind fun w h => ?_
  obtain ⟨rests, loose⟩ := h
  have covers := loose.covers.mono (Nat.zero_le 1)
  split
  · rename_i frame step steps more top
    rw [stateM_run_bind]
    exact covers_beginStep step _ ⟨rests, (loose.covers.replace top _).mono (Nat.zero_le 1)⟩
  · rename_i f more top
    exact Leads.bind (.of_preserves (preserves_bodyResults (I := fun w => w.Rests ∧ w.Loose base)
      (fun w w' h calm => ⟨h.1.calm calm, steady_loose w w' h.2 calm⟩) (fun _ h => h.1) f))
      (fun ending => (covers_leaveBody ending).mono (fun _ h => h.2) fun _ _ h => h) w ⟨rests, loose⟩
  · have emptied : ∀ slots, Preserves (Covers 0 base) (do
        modify fun w => { w with slots := ∅ }
        dropSlots slots
        begin .teardown : Act Unit) := fun slots =>
      (covers_same fun _ => rfl).bind fun _ => (calm_dropSlots steady_covers slots).bind fun _ =>
        covers_began _
    have ends : Leads (Covers 1 base) (do
        report .ended
        finishTop
        let slots := (← get).slots
        modify fun w => { w with slots := ∅ }
        dropSlots slots
        begin .teardown : Act Unit) fun _ => Covers 0 base :=
      .bind (.of_preserves (calm_report steady_covers _ rfl)) fun _ => covers_finishTop.bind fun _ =>
        .get_bind fun w h => emptied w.slots w h
    exact ends w loose.covers
  · rw [stateM_get_bind]
    split
    · exact Preserves.bind (calm_report steady_covers _ rfl) (fun _ => calm_setControl steady_covers _) w
        covers
    · exact Preserves.bind (covers_same fun _ => rfl) (fun _ => (covers_began _).bind fun _ =>
        covers_onSession.bind fun _ => calm_setControl steady_covers _) w covers
  · rename_i d errand more top
    exact covers_deliverNext d errand w loose.covers
  · exact calm_setControl steady_covers _ w covers

/-- What lies below the innermost activity is there after a turn. -/
theorem covers_advance (rests : w.control = .proceed → w.Rests) (loose : w.Loose base) :
    Covers 0 base (advance.run w).2 := by
  have whim : nextWhim.run w = (w.whims.headD .pass, { w with whims := w.whims.tail }) := rfl
  have loose' : ∀ c, Loose base { w with whims := w.whims.tail, control := c } := fun _ =>
    ⟨loose.covers, loose.apart⟩
  rw [advance, stateM_get_bind, stateM_run_bind, whim]
  cases control : w.control with
  | proceed =>
    cases w.whims.headD .pass with
    | upon id budget => exact covers_sweep budget _ ((loose' _).covers.mono (Nat.zero_le 1))
    | _ => exact covers_proceed _ ⟨rests control, loose' _⟩
  | script id =>
    cases w.whims.headD .pass with
    | amid steps budget => exact covers_runFor steps covers_onSession _ (loose' _).covers
    | _ => exact covers_runFor slice (.pure _) _ (loose' _).covers
  | leave ending => cases w.whims.headD .pass <;> exact covers_leaveBody ending _ (loose' _)
  | done => cases w.whims.headD .pass <;> exact (loose' _).covers.mono (Nat.zero_le 1)

end World

end ScriptBridge.Host

import ScriptBridge.Proofs.Deliveries

/-!
# ScriptBridge.Proofs.Crossings

Calls across the boundary, in both directions, as they change what the world holds.

Main facts:

* `keepsAt_send` — values that are made ready get their cells, and pinned callables their owners;
* `keeps_answerScript`, `keeps_leaveBody` — a body that ends hands its results over, or they go;
* `keeps_beginStep` — steps that run scripts;
* `keepsAt_serve` — a host callable that a runtime calls holds its arguments.
-/

namespace ScriptBridge.Host.World

variable {w : World} {μ : SessionId → Session.Memory} {H T pre err : Multiset Holding}

/-! ## Values made ready -/

theorem mem_outHoldings {id : SessionId} {outs : List Session.Outbound} {vs : List Value}
    {h : Holding} (hh : h ∈ outHoldings id outs vs) : ∃ cell v, h = .out id cell v := by
  induction outs generalizing vs with
  | nil => simp at hh
  | cons out outs ih =>
    cases vs with
    | nil => simp [outHoldings] at hh
    | cons v vs =>
      rw [outHoldings_cons, Multiset.mem_add] at hh
      obtain hh | hh := hh
      · cases out with
        | owned cell => exact ⟨cell, v, Multiset.mem_singleton.mp hh⟩
        | nil | lent cell => simp [outHolding] at hh
      · exact ih hh

theorem debts_outHoldings (id : SessionId) (outs : List Session.Outbound) (vs : List Value) :
    tally Holding.debts (outHoldings id outs vs) = 0 := by
  rw [Multiset.eq_zero_iff_forall_notMem]
  intro f hf
  obtain ⟨h, hh, owes⟩ := mem_tally.mp hf
  obtain ⟨cell, v, rfl⟩ := mem_outHoldings hh
  simp [Holding.debts] at owes

theorem about_sent (id : SessionId) (outs : List Session.Outbound) (vs : List Value) :
    ∀ h ∈ Session.sent id outs vs, h.session = id ∨ h.session = 0 := by
  intro h hh
  rw [Session.sent, packDebts_callables] at hh
  obtain hh | hh := Multiset.mem_add.mp hh
  · obtain ⟨cell, v, rfl⟩ := mem_outHoldings hh
    exact Or.inl rfl
  · obtain ⟨f, -, rfl⟩ := List.mem_map.mp (Multiset.mem_coe.mp hh)
    exact Or.inr rfl

/-- Values that are made ready get their cells, and pinned callables their owners. -/
theorem keepsAt_send {α β : Type} {id : SessionId} {vs : List Value} {op : Attempt α}
    (outs : α → List Session.Outbound) {next : Except Failure α → Act β} {after : α → Act β}
    {R : Multiset Holding} {post : β → Multiset Holding}
    (keeps : ∀ o, Keeps (Session.Books id o) (valueHoldings vs) op.run
      (onResult (fun a => valueHoldings vs + Session.sent id (outs a) vs) (valueHoldings vs)))
    (carries : ∀ (s : Session) a, (op.run.run s).1 = .ok a →
      List.Forall₂ (Session.Carries s.id) (outs a) vs)
    (shape : ∀ a, next (.ok a) = retainAll (callablesOf vs) >>= fun _ => after a)
    (sent : ∀ a, List.Forall₂ (Session.Carries id) (outs a) vs →
      Keeps Books (valueHoldings vs + outHoldings id (outs a) vs + R) (after a) post)
    (failed : ∀ f, Keeps Books (valueHoldings vs + R) (next (.error f)) post) :
    KeepsAt Books w (valueHoldings vs + R) (attemptOn id op >>= next) post := by
  intro μ H hw
  rw [add_assoc] at hw
  have owing := hw.owing (Q := fun a => Session.sent id (outs a) vs) keeps
    fun a => about_sent id (outs a) vs
  have held : ((attemptOn id op).run w).2.holdings = w.holdings := holdings_onSession
  have clear := hw.2
  rw [stateM_run_bind]
  cases hr : ((attemptOn id op).run w).1 with
  | error f =>
    rw [hr] at owing
    refine failed f _ μ H ⟨?_, ?_⟩
    · rw [held]
      convert owing using 1
      rw [onResult_error]
      ac_rfl
    · rw [held, ← clear, add_assoc]
  | ok a =>
    rw [hr] at owing
    obtain ⟨s, hs, made⟩ := attemptOn_ok hr
    have carry := carries s a made
    rw [(hw.1.tidy id s hs).1] at carry
    have owed : Balanced μ (((callablesOf vs).map Holding.unpaid : List Holding)
        + (valueHoldings vs + outHoldings id (outs a) vs + R + (w.holdings + H)))
        ((attemptOn id op).run w).2 := by
      convert owing using 1
      rw [onResult_ok, Session.sent, packDebts_callables]
      ac_rfl
    obtain ⟨paid, kept⟩ := pays_retainAll (callablesOf vs) owed
    rw [shape, stateM_run_bind]
    refine sent a carry _ μ H ⟨?_, ?_⟩
    · rw [kept, held]
      convert paid using 1
      ac_rfl
    · rw [kept, held, ← clear]
      simp only [tally_add, debts_outHoldings]
      ac_rfl

/-! ## Bodies -/

theorem argumentName_inj {p q : Nat} (h : argumentName p = argumentName q) : p = q := by
  have digits : Nat.toDigits 10 p = Nat.toDigits 10 q := by
    have same := congrArg String.toList h
    simpa [argumentName, Nat.repr] using same
  have number := congrArg (fun l => Nat.ofDigitChars 10 l 0) digits
  simpa using number

/-- The argument slots of a frame hold the arguments. -/
theorem slotHoldings_arguments (position : Nat) (vs : List Value) (t : Slots)
    (free : ∀ p, position ≤ p → t[argumentName p]? = none) :
    slotHoldings (argumentSlots position vs t) = slotHoldings t + valueHoldings vs := by
  induction vs generalizing position t with
  | nil => rw [argumentSlots, valueHoldings_nil, add_zero]
  | cons v vs ih =>
    have here := slotHoldings_insert t (argumentName position) ⟨v, 0⟩
    rw [free position (Nat.le_refl _), someHoldings_none, add_zero] at here
    rw [argumentSlots, ih, here, valueHoldings_cons, add_assoc]
    intro p hp
    rw [getElem?_insert_of_ne]
    · exact free p (Nat.le_of_succ_le hp)
    · intro same
      exact absurd (argumentName_inj same) (Nat.ne_of_gt hp)

/-- The arguments of a callable are held by the frame of its body. -/
theorem keeps_enterCallable (id : CallableId) (args : List Value) :
    Keeps Books (valueHoldings args) (enterCallable id args) fun _ => 0 := by
  refine Keeps.get_bind fun w => ?_
  cases w.callables[id]? with
  | none =>
    refine (keeps_dropValues args).bind (fun _ => keeps_setControl fun ending h => ?_) w
    cases h
    rfl
  | some c =>
    have body : Keeps Books (valueHoldings args) (do
        begin (.program (some ⟨id, argumentSlots 1 args ∅⟩) c.code.body)
        setControl .proceed : Act Unit) fun _ => 0 := by
      have fits : (Activity.program (some ⟨id, argumentSlots 1 args ∅⟩) c.code.body).Fits := trivial
      refine ((keeps_begin fits).congr ?_ fun _ => rfl).bind fun _ => keeps_setControl_proceed
      rw [Activity.holdings, Option.elim_some, slotHoldings_arguments 1 args ∅ (by simp),
        slotHoldings_empty, zero_add]
    have shape : (do
        if !c.code.quiet then report (.entered c.code.name (args.map View.ofValue))
        begin (.program (some ⟨id, argumentSlots 1 args ∅⟩) c.code.body)
        setControl .proceed : Act Unit)
      = if !c.code.quiet then (do
          report (.entered c.code.name (args.map View.ofValue))
          begin (.program (some ⟨id, argumentSlots 1 args ∅⟩) c.code.body)
          setControl .proceed : Act Unit)
        else (do
          begin (.program (some ⟨id, argumentSlots 1 args ∅⟩) c.code.body)
          setControl .proceed : Act Unit) := rfl
    change KeepsAt Books w (valueHoldings args) (do
        if !c.code.quiet then report (.entered c.code.name (args.map View.ofValue))
        begin (.program (some ⟨id, argumentSlots 1 args ∅⟩) c.code.body)
        setControl .proceed : Act Unit) fun _ => 0
    rw [shape]
    split
    · exact Keeps.after (keeps_report _) (fun _ => body) w
    · exact body w

/-- The list that a body returns is held by whoever asked for it. -/
theorem keeps_bodyResults (f : Frame) :
    Keeps Books 0 (bodyResults f) fun ending => valueHoldings ending.values := by
  refine Keeps.get_bind fun w => ?_
  refine Keeps.bind (keeps_items _) (fun r => ?_) w
  cases r with
  | ok vs => exact Keeps.pure _ rfl
  | error mishap => exact Keeps.pure _ rfl

/-- The results of a callable are delivered, or they go and the runtime gets an error. -/
theorem keeps_answerScript (id : SessionId) (previous : Option Script.ThreadId)
    (callable : CallableId) (ending : Ending) :
    Keeps Books ({.callable callable} + ({.entered id previous} + valueHoldings ending.values))
      (answerScript id previous callable ending) fun _ => 0 := by
  refine ((keeps_releaseCallables [callable]).frame
    ({Holding.entered id previous} + valueHoldings ending.values)).bind fun _ => ?_
  rw [zero_add]
  cases ending with
  | returned vs =>
    rw [add_comm]
    intro w
    refine keepsAt_send (fun r : Script.ThreadId × List Session.Outbound => r.2) (fun _ => Session.keeps_beginResults vs)
      (fun s r made => Session.beginResults_carries made) (fun _ => rfl) (fun r carries => ?_)
      fun f => ?_
    · refine (keeps_beginDelivery (.results previous vs) carries).congr ?_ fun _ => rfl
      rw [Errand.holdings, Errand.values]
      ac_rfl
    · refine ((keeps_dropValues vs).frame {Holding.entered id previous}).bind fun _ => ?_
      rw [zero_add]
      exact keeps_refuseScript id previous f
  | failed f =>
    refine (keeps_refuseScript id previous f).congr ?_ fun _ => rfl
    exact add_zero _
  | panicked text =>
    refine (keeps_refuseScript id previous _).congr ?_ fun _ => rfl
    exact add_zero _

/-- A body that is left takes what is left in its frame with it, and its call is answered. -/
theorem keeps_leaveBody (ending : Ending) :
    Keeps Books (valueHoldings ending.values) (leaveBody ending) fun _ => 0 := by
  refine Keeps.after keeps_setControl_proceed fun _ => ?_
  refine Keeps.get_bind fun w => ?_
  split
  · rename_i f rest id previous callable more top
    refine KeepsAt.bind (((keepsAt_finishTop top).frame (valueHoldings ending.values)).congr
      (zero_add _).symm fun _ => rfl) ?_
    have next : (finishTop.run w).2.activities = .serving id previous callable :: more := by
      rw [finishTop_run, top, List.drop_succ_cons, List.drop_zero]
    refine KeepsAt.bind (((keepsAt_finishTop next).frame _).congr (zero_add _).symm
      fun _ => rfl) ?_
    rw [add_left_comm]
    refine ((keeps_dropSlots f.slots).frame _).bind (fun _ => ?_) _
    rw [zero_add, Activity.holdings, add_assoc, add_left_comm]
    exact keeps_answerScript id previous callable ending
  · rename_i f rest step c more top
    refine KeepsAt.bind (((keepsAt_finishTop top).frame (valueHoldings ending.values)).congr
      (zero_add _).symm fun _ => rfl) ?_
    have next : (finishTop.run w).2.activities = .step step (.callingHost c) :: more := by
      rw [finishTop_run, top, List.drop_succ_cons, List.drop_zero]
    refine KeepsAt.bind (((keepsAt_finishTop next).frame _).congr (zero_add _).symm
      fun _ => rfl) ?_
    rw [add_left_comm]
    refine ((keeps_dropSlots f.slots).frame _).bind (fun _ => ?_) _
    rw [zero_add]
    refine (keeps_finishCall step c _).congr ?_ fun _ => rfl
    cases ending <;> rfl
  · exact keeps_dropValues ending.values w

/-! ## Steps that run scripts -/

/-- The number of values on the host's frame of a session is no matter of holdings. -/
theorem keeps_height (id : SessionId) :
    Keeps Books 0 (onSession id (do return (← get).height) : Act Nat) fun _ => 0 :=
  keeps_onSession_aside fun _ => Session.keeps_look _

theorem keeps_beginExecute (step : Step) (name source : String) :
    Keeps Books 0 (beginExecute step name source) fun _ => 0 := by
  have started : Keeps Books 0 (do
      let id ← sessionNamed name
      let base ← (onSession id (do return (← get).height) : Act Nat)
      trySession id (Session.beginExecute source)
      return (id, base) : Try (SessionId × Nat)).run fun _ => 0 := by
    refine Keeps.forget ?_
    refine Keeps.tryBind (keeps_sessionNamed name) fun id => ?_
    refine Keeps.tryBind ((keeps_height id).lift 0) fun base => ?_
    refine Keeps.tryBind (m := fun _ => 0) ?_ fun _ => Keeps.tryPure _ rfl
    exact keeps_trySession (fun _ => Session.keeps_beginExecute source) fun _ => rfl
  refine started.bind fun r => ?_
  cases r with
  | error mishap => exact keeps_finishStep step _
  | ok r =>
    have fits : (Activity.step step (.executing r.1 r.2)).Fits := trivial
    exact (keeps_begin fits).bind fun _ => keeps_setControl_script r.1

theorem keeps_beginClosing (step : Step) (id : SessionId)
    (change : List (String × SessionId) → List (String × SessionId)) :
    Keeps Books 0 (do
      modify fun w => { w with names := change w.names }
      begin (.step step (.closing id))
      onSession id Session.beginClose
      setControl (.script id) : Act Unit) fun _ => 0 := by
  have unnamed : Keeps Books 0 (modify fun w => { w with names := change w.names } : Act Unit)
      fun _ => 0 := fun _ _ _ ⟨hw, owed⟩ => ⟨{ hw with }, owed⟩
  have fits : (Activity.step step (.closing id)).Fits := trivial
  refine unnamed.bind fun _ => (keeps_begin fits).bind fun _ => ?_
  exact (keeps_onSession_aside fun _ => Session.keeps_beginClose).bind fun _ =>
    keeps_setControl_script id

theorem keeps_beginClose (step : Step) (name : String) :
    Keeps Books 0 (beginClose step name) fun _ => 0 := by
  refine (keeps_sessionNamed name).forget.bind fun r => ?_
  cases r with
  | error mishap => exact keeps_finishStep step _
  | ok id =>
    refine Keeps.get_bind fun w => ?_
    split
    · exact keeps_finishStep step _ w
    · exact keeps_beginClosing step id (fun names => names.filter fun e => e.2 != id) w

/-- A value that is assigned is delivered, or it goes and the step has failed. -/
theorem keeps_beginAssign (step : Step) (name path : String) {e : Try Value} (create : Bool)
    (made : Keeps Books 0 e.run (onResult Value.holdings 0)) :
    Keeps Books 0 (beginAssign step name path e create) fun _ => 0 := by
  refine made.bind fun r => ?_
  cases r with
  | error mishap => exact keeps_finishStep step _
  | ok v =>
    have gone : ∀ mishap, Keeps Books v.holdings (do
        dropValue v
        finishStep step (.error mishap) : Act Unit) fun _ => 0 :=
      fun mishap => (keeps_dropValue v).bind fun _ => keeps_finishStep step _
    refine Keeps.bind (m := fun _ => v.holdings) (((keeps_sessionNamed name).frame
      v.holdings).congr (zero_add _).symm fun r => by cases r <;> exact zero_add _) fun r => ?_
    cases r with
    | error mishap => exact gone mishap
    | ok id =>
      refine Keeps.after (keeps_height id) fun base w => ?_
      have one : v.holdings = valueHoldings [v] + 0 := by simp
      rw [one]
      refine keepsAt_send (fun r : Script.ThreadId × Session.Outbound => [r.2])
        (fun o => ?_) (fun s r packed => ?_) (fun _ => rfl) (fun r carries => ?_) fun f => ?_
      · have keeps := @Session.keeps_beginAssign id o path v create
        simpa using keeps
      · exact .cons (Session.beginAssign_carries packed) .nil
      · refine (keeps_beginDelivery (.assign step base v) carries).congr ?_ fun _ => rfl
        rw [Errand.holdings, Errand.values, add_zero, add_comm]
        simp
      · rw [← one]
        exact gone _

/-- The arguments of a call are delivered, or given back and the step has failed. -/
theorem keeps_beginScriptCall (step : Step) (ref : Ref) (c : Calling) :
    Keeps Books c.holdings (beginScriptCall step ref c) fun _ => 0 := by
  intro w
  rw [Calling.holdings, add_comm]
  refine keepsAt_send (fun outs => outs) (fun o => ?_)
    (fun s outs made => Session.pack_call_carries made) (fun _ => rfl) (fun outs carries => ?_)
    fun f => ?_
  · refine Session.keeps_thread rfl fun open' t => ?_
    subst open'
    exact Session.keeps_packAll _
  · refine Keeps.after (keeps_height _) fun base => ?_
    have ready : Keeps Books 0 (attemptOn ref.session (Session.beginCall ref.cell outs.length))
        fun _ => 0 :=
      (keeps_attemptOn (fun _ => Session.keeps_beginCall _ _) (by simp) (fun _ => rfl) rfl
        (by simp) rfl).forget
    refine Keeps.after ready fun r => ?_
    have regroup : valueHoldings (c.args.map (·.1)) + outHoldings ref.session outs
          (c.args.map (·.1)) + valueHoldings c.replaced.toList
        = outHoldings ref.session outs (c.args.map (·.1)) + c.holdings := by
      rw [Calling.holdings]
      ac_rfl
    cases r with
    | error f =>
      rw [regroup]
      refine ((keeps_releaseOutbound carries).frame c.holdings).bind fun _ => ?_
      exact (keeps_finishCall step c _).congr (add_comm _ _) fun _ => rfl
    | ok r =>
      exact (keeps_beginDelivery (.call step base r.2 c) carries).congr regroup fun _ => rfl
  · refine (keeps_finishCall step c _).congr ?_ fun _ => rfl
    rw [Calling.holdings, outcome, add_zero, add_comm]

/-- A slot is borrowed for a call: its value stays there. -/
theorem keepsAt_borrow {place : Loan} {s : Slot} (h : w.slotAt place = some s) :
    KeepsAt Books w 0 (modify fun w => w.setSlotAt place (some { s with borrows := s.borrows + 1 }) :
      Act Unit) fun _ => 0 := by
  intro μ H hw
  have same := holdings_setSlotAt (hasPlace_of_slotAt h) (some { s with borrows := s.borrows + 1 })
  rw [h] at same
  change Books μ (0 + H) (w.setSlotAt place (some { s with borrows := s.borrows + 1 }))
  rw [Books, add_right_cancel same]
  exact ⟨hw.1.setSlotAt _ _, hw.2⟩

/-- What a call needs is ready: the slot of what is called is borrowed, and the arguments are made. -/
theorem keeps_prepareCall (slot : String) (args : List ItemExpr) (into : List String)
    (count : Bool) :
    Keeps Books 0 (do
      let (place, s) ← filledSlot slot
      modify fun w => w.setSlotAt place (some { s with borrows := s.borrows + 1 })
      let args ← tryCatch (items args) fun mishap => do
        giveBack ⟨place, none, [], into, count⟩
        throw mishap
      return (s.value, ⟨place, none, args, into, count⟩) : Try (Value × Calling)).run
      (onResult (fun r => r.2.holdings) 0) := by
  intro w
  refine keepsAt_filledSlot (fun place s hs => ?_) rfl
  refine ((keepsAt_borrow hs).lift 0).tryBind fun _ _ => ?_
  refine KeepsAt.tryBind (m := fun args => valueHoldings (args.map (·.1))) ?_
    fun args _ => KeepsAt.tryPure _ (zero_add _).symm
  refine Keeps.tryCatch (keeps_items args) (fun mishap => ?_) _
  exact Keeps.tryBind ((keeps_giveBack ⟨place, none, [], into, count⟩).lift 0)
    fun _ => Keeps.throw _ rfl

theorem keeps_beginCall (step : Step) (slot : String) (args : List ItemExpr)
    (into : List String) (count : Bool) :
    Keeps Books 0 (beginCall step slot args into count) fun _ => 0 := by
  refine (keeps_prepareCall slot args into count).bind fun r => ?_
  cases r with
  | error mishap => exact keeps_finishStep step _
  | ok r =>
    obtain ⟨v, c⟩ := r
    have refused : Keeps Books c.holdings
        (finishCall step { c with args := c.args.map fun a => (a.1, none) }
          (.error (.misuse .notFunction))) fun _ => 0 := by
      refine (keeps_finishCall step _ _).congr ?_ fun _ => rfl
      rw [outcome, add_zero, Calling.holdings, Calling.holdings, List.map_map]
      rfl
    cases v with
    | function ref => exact keeps_beginScriptCall step ref c
    | callable id =>
      have fits : (Activity.step step (.callingHost { c with args := [] })).Fits := trivial
      have begun := (keeps_begin fits).frame (valueHoldings (c.args.map (·.1)))
      refine (begun.congr ?_ fun _ => zero_add _).bind fun _ => keeps_enterCallable id _
      change c.holdings = Calling.holdings { c with args := [] } + _
      rw [Calling.holdings, Calling.holdings, List.map_nil, valueHoldings_nil, add_zero]
    | _ => exact refused

/-- A step that begins leaves the books right. -/
theorem keeps_beginStep (step : Step) : Keeps Books 0 (beginStep step) fun _ => 0 := by
  unfold beginStep
  split
  · rename_i act h
    exact (keeps_immediate h).forget.bind fun r => keeps_finishStep step r
  · split
    · exact keeps_beginExecute step _ _
    · exact keeps_beginClose step _
    · exact keeps_beginAssign step _ _ _ (keeps_value _)
    · refine keeps_beginAssign step _ _ _ ?_
      exact Keeps.tryBind (keeps_callable _) fun id => Keeps.tryPure _ rfl
    · exact keeps_beginAssign step _ _ _ (keeps_anotherOf _)
    · exact keeps_beginCall step _ _ _ _
    · refine Keeps.get_bind fun w => ?_
      split
      · refine keeps_setControl (fun ending h => ?_) w
        cases h
        rfl
      · exact keeps_finishStep step _ w
    · exact keeps_finishStep step _

end ScriptBridge.Host.World

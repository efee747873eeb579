import ScriptBridge.Host.Eval

/-!
# ScriptBridge.Host.Run

Running a host program.  `World.advance` does one thing: it takes the next step of the innermost
program, lets a runtime run until it waits for the host, or goes on with what was waiting for
that.  Calls between host and scripts nest to any depth as activities of the world.
-/

namespace ScriptBridge.Host

open scoped CoreInstances

namespace World

/-! ## Steps that are done at once -/

/-- The session of a name. -/
def sessionNamed (name : String) : Try SessionId := do
  match (← get).names.find? fun e => e.1 == name with
  | some (_, id) => return id
  | none => throw (.misuse .noSession)

/-- Works on a session for a step. -/
def trySession {α : Type} (id : SessionId) (op : Attempt α) : Try α := do
  match ← attemptOn id op with
  | .ok a => return a
  | .error f => throw (.failure f)

/-- Reports a value and keeps it in a slot, or drops it. -/
def keepAnswer (v : Value) (into : Option String) : Try Answer := do
  keepOrDrop into v
  return .view (.ofValue v)

/-- A step that does not run scripts; none for the others. -/
def immediate : Action → Option (Try Answer)
  | .openSession name options => some do
    let id ← freshSessionId
    let s := Session.start id options
    let label := s.label
    modify fun w => { w with
      sessions := w.sessions.insert id s
      names := w.names ++ [(name, id)] }
    (onDirectory (Directory.enroll id) : Act Unit)
    return .opened id label
  | .lookUp name path into => some do
    let v ← trySession (← sessionNamed name) (Session.lookUp path)
    keepAnswer v into
  | .lookUpFunction name path into => some do
    let v ← trySession (← sessionNamed name) (Session.lookUp path)
    match v.toFunction with
    | .ok ref => keepAnswer (.function ref) into
    | .error f =>
      dropValue v
      throw (.failure f)
  | .define name f => some do
    let id ← callable f
    let old := (← get).defined[name]?
    modify fun w => { w with defined := w.defined.insert name id }
    release (old.toList.map Chore.callable)
    return .ok
  | .undefine name => some do
    let old := (← get).defined[name]?
    modify fun w => { w with defined := w.defined.erase name }
    release (old.toList.map Chore.callable)
    return .flag old.isSome
  | .extract e as into => some do
    let v ← value e
    match extractAs as v with
    | .error mishap =>
      dropValue v
      throw mishap
    | .ok (shown, some kept) =>
      keepOrDrop into kept
      return .extracted shown
    | .ok (shown, none) =>
      dropValue v
      return .extracted shown
  | .put slot e => some do
    let v ← value e
    storeSlot slot v
    return .view (.ofValue v)
  | .discard slot => some do
    dropValue (← takeSlot slot)
    return .ok
  | .release slot => some do
    let v ← takeSlot slot
    dropValue v
    match v.ref? with
    | some _ => return .ok
    | none => throw (.misuse .notReference)
  | .clone slot into => some do
    let (_, s) ← filledSlot slot
    match s.value with
    | .reference ref => keepAnswer (.reference (← reanchor ref)) into
    | .function ref => keepAnswer (.function (← reanchor ref)) into
    | _ => throw (.misuse .notReference)
  | .toReference slot into => some do
    match ← takeSlot slot with
    | .function ref => keepAnswer (.reference ref) into
    | v =>
      dropValue v
      throw (.misuse .notFunction)
  | .describe slot => some do
    let (_, s) ← filledSlot slot
    return .description (.ofValue s.value)
  | .compare a b => some do
    let (_, x) ← filledSlot a
    let (_, y) ← filledSlot b
    let same := match x.value.ref?, y.value.ref? with
      | some r, some q => some (Value.sharesCell r q)
      | _, _ => none
    return .comparison (x.value.equal y.value) same
  | .countPins name => some do
    let id ← sessionNamed name
    return .count (← (onSession id (do return (← get).pins.size) : Act Nat))
  | .status name => some do
    let id ← sessionNamed name
    let (label, isOpen) ← (onSession id (do
      let s ← get
      return (s.label, s.isOpen)) : Act (String × Bool))
    return .status id label !isOpen
  | .showMap => some do
    return .map (← (onDirectory Directory.count : Act (Option Nat)))
  | .holdMap => some do
    return .flag (← (onDirectory Directory.hold : Act Bool))
  | .freeMaps => some do
    (onDirectory Directory.letGo : Act Unit)
    return .ok
  | .fail e => some do
    throw (.failure (← failure e))
  | .malformed => some do
    throw (.misuse .badInput)
  | .closeSession _ | .execute .. | .call .. | .panic _ => none
  | .assign .. | .register .. | .registerNamed .. => none

/-! ## Activities -/

/-- Puts an activity on top. -/
def begin (a : Activity) : Act Unit :=
  modify fun w => { w with activities := a :: w.activities }

/-- Takes the activity on top away. -/
def finishTop : Act Unit := modify fun w => { w with activities := w.activities.drop 1 }

def setControl (c : Control) : Act Unit := modify fun w => { w with control := c }

/-- The text of a panic that has none. -/
def unknownPanic : String := "unknown panic"

/-- Stores the first results in slots and drops the others. -/
def storeResults : List String → List Value → Try Unit
  | _, [] => return ()
  | [], vs => dropValues vs
  | name :: names, v :: vs => do
    tryCatch (storeSlot name v) fun mishap => do
      dropValues vs
      throw mishap
    storeResults names vs

/-- The answer of a call step. -/
def callAnswer (c : Calling) (vs : List Value) : Try Answer := do
  let views := vs.map View.ofValue
  storeResults c.into vs
  return if c.count then .count views.length else .views views

/-- Goes on after a step.  A failure ends the body that the step is in, unless the step says
otherwise. -/
def goOn (step : Step) : Except Mishap Answer → Act Unit
  | .ok _ => setControl .proceed
  | .error mishap => do
    if step.attempt || (← get).frame?.isNone then setControl .proceed
    else setControl (.leave (.failed mishap.toFailure))

/-- Reports the result of a step and goes on. -/
def finishStep (step : Step) (r : Except Mishap Answer) : Act Unit := do
  if !step.quiet then report (.result r)
  goOn step r

/-- Gives back what a call step borrowed: the slot of what was called, and the lent arguments;
the other arguments are dropped. -/
def endLoans (c : Calling) : Act Unit := do
  giveBack c
  c.args.forM fun
    | (v, some slot) => do
      let _ ← (storeSlot slot v).run
    | (_, none) => return ()
  dropValues (c.args.filterMap fun
    | (v, none) => some v
    | (_, some _) => none)

/-- Finishes a call step. -/
def finishCall (step : Step) (c : Calling) (r : Except Mishap (List Value)) : Act Unit := do
  endLoans c
  match r with
  | .error mishap => finishStep step (.error mishap)
  | .ok vs => finishStep step (← (callAnswer c vs).run)

/-! ## Deliveries -/

/-- Changes the activity on top. -/
def replaceTop (a : Activity) : Act Unit :=
  modify fun w => { w with activities := a :: w.activities.drop 1 }

/-- Begins to put values that are ready on the host's frame of a thread. -/
def beginDelivery (id : SessionId) (t : Script.ThreadId) (outs : List Session.Outbound)
    (errand : Errand) : Act Unit := do
  begin (.delivering ⟨id, t, outs, outs, none⟩ errand)
  setControl .proceed

/-- Goes on with an errand whose values are on the host's frame.  The cells of a call are
released when it ends, and those of anything else now. -/
def delivered (d : Delivery) : Errand → Act Unit
  | .call step base _ c => do
    onSession d.session (Session.startCall d.outbound.length)
    begin (.step step (.calling d.session base d.outbound c))
    setControl (.script d.session)
  | .assign step base v => do
    onSession d.session (Session.finishAssign d.thread)
    onSession d.session (Session.dropAbove d.thread base)
    releaseOutbound d.session d.outbound
    dropValue v
    finishStep step (.ok .ok)
  | .results previous vs => do
    releaseOutbound d.session d.outbound
    dropValues vs
    onSession d.session (Session.leave previous)
    onSession d.session Session.returnResults
    setControl (.script d.session)

/-- Gives an errand up: one of its values could not be delivered. -/
def undelivered (d : Delivery) (f : Failure) : Errand → Act Unit
  | .call step base _ c => do
    onSession d.session (Session.dropAbove d.thread base)
    releaseOutbound d.session d.outbound
    finishCall step c (.error (.failure f))
  | .assign step base v => do
    onSession d.session (Session.dropAbove d.thread base)
    releaseOutbound d.session d.outbound
    dropValue v
    finishStep step (.error (.failure f))
  | .results previous vs => do
    releaseOutbound d.session d.outbound
    dropValues vs
    onSession d.session (Session.leave previous)
    onSession d.session (Session.raiseFailure f)
    setControl (.script d.session)

/-- Puts one more value on the host's frame.  For a callable this takes two turns: it is pinned
for its function first, and then the function is made. -/
def deliverNext (d : Delivery) (errand : Errand) : Act Unit := do
  match d.pin with
  | some pin =>
    replaceTop (.delivering { d with pin := none } errand)
    onSession d.session (Session.build d.thread pin)
  | none =>
    match d.left with
    | [] =>
      finishTop
      delivered d errand
    | out :: left =>
      match ← attemptOn d.session (Session.repin out) with
      | .ok (some (pin, callable)) =>
        retain callable
        replaceTop (.delivering { d with left, pin := some pin } errand)
      | .ok none =>
        onSession d.session (Session.place d.thread out)
        replaceTop (.delivering { d with left } errand)
      | .error f =>
        finishTop
        undelivered d f errand

/-! ## Entering and leaving callables -/

/-- Answers the call of a callable from a runtime. -/
def answerScript (id : SessionId) (previous : Option Script.ThreadId) (callable : CallableId)
    (ending : Ending) : Act Unit := do
  release [.callable callable]
  let refuse (f : Failure) : Act Unit := do
    onSession id (Session.leave previous)
    onSession id (Session.raiseFailure f)
    setControl (.script id)
  match ending with
  | .returned vs =>
    match ← attemptOn id (Session.beginResults vs) with
    | .ok (t, outs) =>
      retainAll (callablesOf vs)
      beginDelivery id t outs (.results previous vs)
    | .error f =>
      dropValues vs
      refuse f
  | .failed f => refuse f
  | .panicked text => refuse (.panicked (text.getD unknownPanic))

/-- The argument slots of a frame. -/
def argumentSlots : (position : Nat) → List Value → Slots → Slots
  | _, [], slots => slots
  | position, v :: vs, slots =>
    argumentSlots (position + 1) vs (slots.insert (argumentName position) ⟨v, 0⟩)

/-- Enters the body of a callable. -/
def enterCallable (id : CallableId) (args : List Value) : Act Unit := do
  match (← get).callables[id]? with
  | none =>
    dropValues args
    setControl (.leave (.returned []))
  | some c =>
    if !c.code.quiet then report (.entered c.code.name (args.map View.ofValue))
    begin (.program (some ⟨id, argumentSlots 1 args ∅⟩) c.code.body)
    setControl .proceed

/-- The list that the body on top returns. -/
def bodyResults (f : Frame) : Act Ending := do
  let es := match (← get).callables[f.callable]? with
    | some c => c.code.results
    | none => []
  match ← (items es).run with
  | .ok vs => return .returned (vs.map (·.1))
  | .error mishap => return .failed mishap.toFailure

/-- Leaves the body on top: its frame goes away with what is left in it, and the call is
answered. -/
def leaveBody (ending : Ending) : Act Unit := do
  setControl .proceed
  match (← get).activities with
  | .program (some f) _ :: .serving id previous callable :: _ =>
    finishTop
    finishTop
    dropSlots f.slots
    answerScript id previous callable ending
  | .program (some f) _ :: .step step (.callingHost c) :: _ =>
    finishTop
    finishTop
    dropSlots f.slots
    finishCall step c <| match ending with
      | .returned vs => .ok vs
      | .failed f => .error (.failure f)
      | .panicked _ => .error (.misuse .panic)
  | _ => dropValues ending.values

/-! ## Steps that run scripts -/

def beginExecute (step : Step) (name source : String) : Act Unit := do
  let started ← (do
    let id ← sessionNamed name
    let base ← (onSession id (do return (← get).height) : Act Nat)
    trySession id (Session.beginExecute source)
    return (id, base) : Try (SessionId × Nat)).run
  match started with
  | .error mishap => finishStep step (.error mishap)
  | .ok (id, base) =>
    begin (.step step (.executing id base))
    setControl (.script id)

/-- Begins to close a session, which from then on has no name. -/
def beginClose (step : Step) (name : String) : Act Unit := do
  match ← (sessionNamed name).run with
  | .error mishap => finishStep step (.error mishap)
  | .ok id =>
    if (← get).inUse id then finishStep step (.error (.misuse .busy))
    else
      modify fun w => { w with names := w.names.filter fun e => e.2 != id }
      begin (.step step (.closing id))
      onSession id Session.beginClose
      setControl (.script id)

/-- Begins to assign a global: the value is made first, then the session is looked up. -/
def beginAssign (step : Step) (name path : String) (e : Try Value) (create : Bool) :
    Act Unit := do
  match ← e.run with
  | .error mishap => finishStep step (.error mishap)
  | .ok v =>
    match ← (sessionNamed name).run with
    | .error mishap =>
      dropValue v
      finishStep step (.error mishap)
    | .ok id =>
      let base ← (onSession id (do return (← get).height) : Act Nat)
      match ← attemptOn id (Session.beginAssign path v create) with
      | .error f =>
        dropValue v
        finishStep step (.error (.failure f))
      | .ok (t, out) =>
        retainAll (callablesOf [v])
        beginDelivery id t [out] (.assign step base v)

/-- A new owner of a callable that was defined under a name. -/
def anotherOf (name : String) : Try Value := do
  let id ← definedCallable name
  retain id
  return .callable id

/-- Begins to call the script function under a reference. -/
def beginScriptCall (step : Step) (ref : Ref) (c : Calling) : Act Unit := do
  let id := ref.session
  let vs := c.args.map (·.1)
  let ready ← attemptOn id do
    let _ ← Session.thread
    Session.packAll vs
  match ready with
  | .error f => finishCall step c (.error (.failure f))
  | .ok outs =>
    retainAll (callablesOf vs)
    let base ← onSession id do return (← get).height
    match ← attemptOn id (Session.beginCall ref.cell outs.length) with
    | .error f =>
      releaseOutbound id outs
      finishCall step c (.error (.failure f))
    | .ok (t, f) => beginDelivery id t outs (.call step base f c)

/-- Begins a call step. -/
def beginCall (step : Step) (slot : String) (args : List ItemExpr) (into : List String)
    (count : Bool) : Act Unit := do
  let prepared ← (do
    let (place, s) ← filledSlot slot
    modify fun w => w.setSlotAt place (some { s with borrows := s.borrows + 1 })
    let args ← tryCatch (items args) fun mishap => do
      giveBack ⟨place, none, [], into, count⟩
      throw mishap
    return (s.value, ⟨place, none, args, into, count⟩) : Try (Value × Calling)).run
  match prepared with
  | .error mishap => finishStep step (.error mishap)
  | .ok (.function ref, c) => beginScriptCall step ref c
  | .ok (.callable id, c) =>
    begin (.step step (.callingHost { c with args := [] }))
    enterCallable id (c.args.map (·.1))
  | .ok (_, c) =>
    let c := { c with args := c.args.map fun a => (a.1, none) }
    finishCall step c (.error (.misuse .notFunction))

/-- Begins a step. -/
def beginStep (step : Step) : Act Unit := do
  match immediate step.action with
  | some act => finishStep step (← act.run)
  | none =>
    match step.action with
    | .execute name source => beginExecute step name source
    | .closeSession name => beginClose step name
    | .assign name path e create => beginAssign step name path (value e) create
    | .register name path f => beginAssign step name path (return .callable (← callable f)) true
    | .registerNamed name path stored => beginAssign step name path (anotherOf stored) true
    | .call slot args into count => beginCall step slot args into count
    | .panic text =>
      if (← get).frame?.isSome then setControl (.leave (.panicked text))
      else finishStep step (.error (.misuse .panic))
    | _ => finishStep step (.error (.misuse .badInput))

/-! ## Runtimes that wait -/

/-- Enters the callable that the runtime of a session has called. -/
def receive (id : SessionId) : Act Unit := do
  let previous ← onSession id Session.enter
  let cells ← onSession id Session.takeArguments
  let handle ← onSession id do return (← get).calledHandle
  let refuse (f : Failure) : Act Unit := do
    onSession id (Session.leave previous)
    onSession id (Session.raiseFailure f)
    setControl (.script id)
  match handle with
  | none =>
    onSession id (Session.freeAll cells)
    refuse (.runtime .lostHandle)
  | some handle =>
    match ← onSession id do return (← get).pins.get? handle with
    | none =>
      onSession id (Session.freeAll cells)
      refuse (.notCallable handle)
    | some callable =>
      retain callable
      match ← attemptOn id (Session.unpackAll cells) with
      | .error f =>
        release [.callable callable]
        refuse f
      | .ok vs =>
        begin (.serving id previous callable)
        enterCallable callable vs

/-- Nothing can go on when no session is found for a runtime that has called back. -/
def abort : Act Unit := do
  onDirectory Directory.lose
  setControl .done

/-- Enters the callable that a runtime has called, for the session that owns the runtime. -/
def serve (id : SessionId) : Act Unit := do
  match ← ownerOf id with
  | some owner => receive owner
  | none => abort

/-- Releases a pin of a session while a hook of its runtime runs. -/
def releasePin (handle : Handle) (id : SessionId) : Act Unit := do
  let previous ← onSession id Session.enter
  let callable ← onSession id (Session.unpin handle)
  release (callable.toList.map Chore.callable)
  onSession id (Session.leave previous)

/-- Releases the pin of a handle whose userdata is finalized.  Where no session owns the runtime
there is nothing to release. -/
def releaseHandle (id : SessionId) (target : Script.Value) : Act Unit := do
  match ← onSession id (Session.takeHandle target) with
  | none => onSession id Session.resume
  | some handle =>
    (← ownerOf id).forM (releasePin handle)
    onSession id Session.resume

/-- Goes on with a snippet that a runtime has run, or that has raised an error. -/
def finishExecuting (id : SessionId) (raised : Bool) (step : Step) (base : Nat) : Act Unit := do
  if raised then
    let f ← onSession id (Session.takeError base)
    finishStep step (.error (.failure f))
  else
    onSession id (Session.dropResults base)
    finishStep step (.ok .ok)

/-- Goes on with a call, into the session whose cells are handed over, that has returned or has
raised an error. -/
def finishCalling (id session : SessionId) (raised : Bool) (step : Step) (base : Nat)
    (outs : List Session.Outbound) (c : Calling) : Act Unit := do
  if raised then
    let f ← onSession id (Session.takeError base)
    releaseOutbound session outs
    finishCall step c (.error (.failure f))
  else
    let cells ← onSession id (Session.collectResults base)
    releaseOutbound session outs
    match ← attemptOn id (Session.takeResults cells) with
    | .ok vs => finishCall step c (.ok vs)
    | .error f => finishCall step c (.error (.failure f))

/-- Goes on with the step that waited for a runtime, which has returned or raised an error. -/
def finishScript (id : SessionId) (raised : Bool) : Act Unit := do
  match (← get).activities with
  | .step step (.executing _ base) :: _ =>
    finishTop
    finishExecuting id raised step base
  | .step step (.calling session base outs c) :: _ =>
    finishTop
    finishCalling id session raised step base outs c
  | _ => setControl .proceed

/-- Takes a session off the session map, and its runtime away.  The callables that are still pinned
are handed over. -/
def closeSession (id : SessionId) : Act (List CallableId) := do
  onDirectory (Directory.remove id)
  onSession id Session.finishClose

/-- Ends the closing of a session whose finalizers have run: it lets go of the callables that are
still pinned, and is dropped. -/
def finishClose (id : SessionId) : Act Unit := do
  let callables ← closeSession id
  release (callables.map Chore.callable)
  onDirectory (Directory.dismiss id)
  match (← get).activities with
  | .step step (.closing _) :: _ =>
    finishTop
    finishStep step (.ok .ok)
  | _ => setControl .proceed

/-- Ends a collection that came upon the host. -/
def finishSweep : Act Unit := do
  match (← get).activities with
  | .sweeping _ :: _ => finishTop
  | _ => pure ()
  setControl .proceed

/-- Does what a runtime waits for. -/
def attend (id : SessionId) : Script.Pause → Act Unit
  | .invoked => serve id
  | .releasing target => releaseHandle id target
  | .collecting => onSession id Session.collectGarbage
  | .returned => finishScript id false
  | .raised => finishScript id true
  | .closed => finishClose id
  | .swept => finishSweep

/-- How many steps a runtime makes before the world looks at it again. -/
def slice : Nat := 1000000

/-- Lets a runtime run until it waits, and does what it waits for. -/
def runScript (id : SessionId) : Act Unit := do
  match ← onSession id (Session.runMachine slice) with
  | none => return ()
  | some pause => attend id pause

/-- Lets a runtime run for some steps and then make a collection, if it does not wait before. -/
def interrupt (id : SessionId) (steps budget : Nat) : Act Unit := do
  match ← onSession id (Session.runMachine steps) with
  | none => onSession id (Session.strike budget)
  | some pause => attend id pause

/-- Lets a runtime make a collection while the host does not run a script. -/
def sweep (id : SessionId) (budget : Nat) : Act Unit := do
  if ← onSession id (do return (← get).machine.canCollect) then
    onSession id (Session.strike budget)
    begin (.sweeping id)
    setControl (.script id)

/-- The step that closes sessions at the end. -/
def closingStep : Step := .mk (.closeSession "") true true

/-- Goes on with the activity on top. -/
def proceed : Act Unit := do
  match (← get).activities with
  | .program frame (s :: rest) :: more =>
    modify fun w => { w with activities := .program frame rest :: more }
    beginStep s
  | .program (some f) [] :: _ => leaveBody (← bodyResults f)
  | .program none [] :: _ =>
    report .ended
    finishTop
    let slots := (← get).slots
    modify fun w => { w with slots := ∅ }
    dropSlots slots
    begin .teardown
  | .teardown :: _ =>
    match (← get).names with
    | [] =>
      report .ended
      setControl .done
    | (_, id) :: names =>
      modify fun w => { w with names := names }
      begin (.step closingStep (.closing id))
      onSession id Session.beginClose
      setControl (.script id)
  | .delivering d errand :: _ => deliverNext d errand
  | _ => setControl .done

/-- What the runtimes do next of their own accord. -/
def nextWhim : Act Whim :=
  modifyGet fun w => (w.whims.headD .pass, { w with whims := w.whims.tail })

/-- Does one thing. -/
def advance : Act Unit := do
  match (← get).control, ← nextWhim with
  | .proceed, .upon id budget => sweep id budget
  | .proceed, _ => proceed
  | .script id, .amid steps budget => interrupt id steps budget
  | .script id, _ => runScript id
  | .leave ending, _ => leaveBody ending
  | .done, _ => return ()

/-- Goes on until all is done, for at most `fuel` things. -/
def run : (fuel : Nat) → World → World
  | 0, w => w
  | fuel + 1, w =>
    match w.control with
    | .done => w
    | _ => run fuel (advance.run w).2

end World

/-- More things than any program does in a lifetime. -/
def ample : Nat := 2 ^ 62

/-- What a program reports when no collections are made but those that scripts ask for. -/
def report (program : List Step) : List Event :=
  ((World.start program []).run ample).events.reverse

end ScriptBridge.Host

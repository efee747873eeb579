import ScriptBridge.Session

/-!
# ScriptBridge.Session.Calls

Calls across the boundary, each in two halves: what is done before the runtime, or the host,
takes over, and what is done when it hands back.
-/

namespace ScriptBridge

namespace Session

/-! ## Host to script -/

/-- Takes the error off the host's frame, and all else above the lowest `base`. -/
def takeError (base : Nat) : Op Failure := do
  let t := (← get).active.getD Script.Machine.main
  let error := ((← get).machine.operandsOf t).headD .nil
  let _ ← withMachine fun m => m.takeOperands t base
  scriptFailure error

/-- Begins to run a snippet; one that cannot be read fails at once. -/
def beginExecute (source : String) : Attempt Unit := do
  let t ← thread
  let base := (← get).height
  let chunk := (← get).chunk
  if ← (withMachine fun m => m.load t source.toUTF8 chunk : Op Bool) then
    modifyMachine fun m => m.startCall 0
  else throw (← takeError base)

/-- Drops what a snippet left above the lowest `base`. -/
def dropResults (base : Nat) : Op Unit := do
  let t := (← get).active.getD Script.Machine.main
  let _ ← withMachine fun m => m.takeOperands t base

/-- Begins to call a function with `count` arguments: puts the function on the host's frame,
where the arguments are to follow it. -/
def beginCall (f : CellId) (count : Nat) : Attempt (Script.ThreadId × Script.Value) := do
  let t ← thread
  if Refusal.maxCount < count then throw (.runtime .tooManyArguments)
  else
    reserve t (count + 1)
    let function := (← get).valueOf (.lent f)
    place t (.lent f)
    return (t, function)

/-- Calls the function below the `count` arguments. -/
def startCall (count : Nat) : Op Unit := modifyMachine fun m => m.startCall count

/-- Makes cells of the results of a call, in an array that is an allocation of its own. -/
def collectResults (base : Nat) : Op (List (Option CellId)) := do
  let t := (← get).active.getD Script.Machine.main
  let cells ← collect t base
  modify fun s => { s with ledger := s.ledger.acquire 1 }
  return cells

/-- Makes host values of the results of a call. -/
def takeResults (cells : List (Option CellId)) : Attempt (List Value) := do
  settle 1
  unpackAll cells

/-! ## Script to host -/

/-- Enters host code from the runtime, which is open then: host operations run on the thread that
called.  The thread that was active before is handed over. -/
def enter : Op (Option Script.ThreadId) :=
  modifyGet fun s =>
    (s.active, if s.isOpen then { s with active := some s.machine.current } else s)

/-- Leaves host code that was entered when another thread was active. -/
def leave (previous : Option Script.ThreadId) : Op Unit :=
  modify fun s => if s.isOpen then { s with active := previous } else s

/-- Takes the arguments of the host function that was called, as cells. -/
def takeArguments : Op (List (Option CellId)) := do
  let t := (← get).machine.current
  collect t 0

/-- The handle in the closure of the host function that was called. -/
def calledHandle (s : Session) : Option Handle :=
  match s.machine.hostUpvalue with
  | .userdata id => s.handles.lookup id
  | _ => none

/-- Makes the results of a host callable ready to be put on its frame.  More than the runtime can count
are too many for its stack as well. -/
def beginResults (results : List Value) : Attempt (Script.ThreadId × List Outbound) := do
  let t ← thread
  reserve t results.length
  return (t, ← packAll results)

/-- Returns from a host function with what is on its frame. -/
def returnResults : Op Unit := modifyMachine fun m => m.returnFromHost

/-- Leaves a host function with the text of a failure as the error. -/
def raiseFailure (failure : Failure) : Op Unit :=
  modifyMachine fun m =>
    let m := m.setOperands m.current [.str failure.message.toUTF8]
    m.failFromHost

/-! ## The collector and the end -/

/-- Takes the handle out of the userdata that is being finalized. -/
def takeHandle (target : Script.Value) : Op (Option Handle) :=
  modifyGet fun s =>
    match target with
    | .userdata id =>
      (s.handles.lookup id, { s with handles := s.handles.eraseP fun e => e.1 == id })
    | _ => (none, s)

/-- Releases a pin; its callable is handed over. -/
def unpin (handle : Handle) : Op (Option CallableId) :=
  modifyGet fun s =>
    let (callable, pins) := s.pins.release handle
    (callable, { s with pins := pins })

/-- Makes a collection and goes on with the finalizers that are due. -/
def collectGarbage : Op Unit := do
  let anchored := (← get).anchors.values
  modifyMachine fun m => (m.collect anchored).deliver []

/-- Lets the runtime run until it waits for the host, or for so many steps. -/
def runMachine (steps : Nat) : Op (Option Script.Pause) :=
  withMachine fun m =>
    let m := m.run steps
    (m.pause?, m)

/-- Lets the runtime make a collection of its own accord. -/
def strike (budget : Nat) : Op Unit := do
  let anchored := (← get).anchors.values
  modifyMachine fun m => m.strike anchored budget

/-- Goes on after the release of a handle. -/
def resume : Op Unit := modifyMachine fun m => m.deliver []

/-- Begins to close the session: its finalizers run, and host code called from them finds the
session open. -/
def beginClose : Op Unit := modifyMachine fun m => m.startClose

/-- Closes the session when its finalizers have run; the callables still pinned are handed
over. -/
def finishClose : Op (List CallableId) :=
  modifyGet fun s =>
    let (callables, pins) := s.pins.clear
    (callables, { s with
      isOpen := false, active := none, pins := pins, machine := default, anchors := .empty,
      handles := [] })

end Session

end ScriptBridge

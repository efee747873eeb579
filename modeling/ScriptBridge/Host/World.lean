import ScriptBridge.Host.Program
import ScriptBridge.Session.Calls
import ScriptBridge.Session.Globals
import ScriptBridge.SessionMap

/-!
# ScriptBridge.Host.World

The state of a running host program: the sessions, the slots with their values, the host
callables, and the activities that are in progress, the innermost first.

A host callable lives as long as something owns it: a value held by the host, a pin of a
session, or a call of it in progress.  When the last owner goes away, so does the callable, and
then the values it captured.  `World.release` does this for whatever is let go of; letting go of
one thing may set free others, and those are let go of before anything else happens.
-/

namespace ScriptBridge.Host

/-- A place for a value. -/
structure Slot where
  value : Value
  /-- How many calls of the value are in progress. -/
  borrows : Nat
  deriving Inhabited

/-- Slots by name. -/
abbrev Slots := Std.TreeMap String Slot

/-- A host callable. -/
structure Callable where
  code : CallableExpr
  /-- The values it captured, which all its calls share. -/
  captured : Slots
  owners : Nat
  deriving Inhabited

/-- A call of a host callable in progress. -/
structure Frame where
  callable : CallableId
  slots : Slots
  deriving Inhabited

/-- A slot that a call borrows. -/
inductive Loan where
  | ofWorld (name : String)
  | ofCallable (callable : CallableId) (name : String)
  | ofFrame (name : String)
  deriving DecidableEq, Inhabited

/-- A call step in progress. -/
structure Calling where
  loan : Loan
  /-- A value that was replaced in the borrowed slot. -/
  replaced : Option Value
  /-- The arguments, each with the slot it was lent from. -/
  args : List (Value × Option String)
  into : List String
  count : Bool
  deriving Inhabited

/-- What a step that is in progress waits for. -/
inductive Waiting where
  /-- A snippet; so many values were on the host's frame before. -/
  | executing (session : SessionId) (base : Nat)
  | calling (session : SessionId) (base : Nat) (outbound : List Session.Outbound) (c : Calling)
  /-- A host callable that is called directly. -/
  | callingHost (c : Calling)
  | closing (session : SessionId)
  deriving Inhabited

/-- Values that are being put on the host's frame of a thread, one after the other. -/
structure Delivery where
  session : SessionId
  thread : Script.ThreadId
  outbound : List Session.Outbound
  /-- Those not yet put there. -/
  left : List Session.Outbound
  /-- The pin of the host function that is made next. -/
  pin : Option Handle
  deriving Inhabited

/-- What values are delivered for. -/
inductive Errand where
  /-- The arguments of a call of a function, which lies below them; so many values were on the
  host's frame before. -/
  | call (step : Step) (base : Nat) (function : Script.Value) (c : Calling)
  /-- The value of a global. -/
  | assign (step : Step) (base : Nat) (v : Value)
  /-- The results of a host callable, when another thread was active before. -/
  | results (previous : Option Script.ThreadId) (vs : List Value)
  deriving Inhabited

/-- Something in progress. -/
inductive Activity where
  /-- A program: the body of a callable with its frame, or the one that began it all. -/
  | program (frame : Option Frame) (rest : List Step)
  | step (step : Step) (waiting : Waiting)
  | delivering (d : Delivery) (errand : Errand)
  /-- A call of a callable from a runtime, when another thread was active before. -/
  | serving (session : SessionId) (previous : Option Script.ThreadId) (callable : CallableId)
  /-- A collection that came upon the host. -/
  | sweeping (session : SessionId)
  /-- The end: the sessions that are open are closed, the oldest first. -/
  | teardown

instance : Inhabited Activity := ⟨.teardown⟩

namespace Activity

/-- The call that an activity is part of. -/
def calling? : Activity → Option Calling
  | .step _ (.calling _ _ _ c) => some c
  | .step _ (.callingHost c) => some c
  | .delivering _ (.call _ _ _ c) => some c
  | _ => none

/-- An activity with the call it is part of changed. -/
def withCalling (c : Calling) : Activity → Activity
  | .step s (.calling id base outs _) => .step s (.calling id base outs c)
  | .step s (.callingHost _) => .step s (.callingHost c)
  | .delivering d (.call s base f _) => .delivering d (.call s base f c)
  | a => a

/-- Whether an activity is part of a call that borrows a slot, whose value is still there. -/
def borrows (place : Loan) (a : Activity) : Bool :=
  match a.calling? with
  | some c => c.loan = place && c.replaced.isNone
  | none => false

end Activity

/-- How the body of a callable ended. -/
inductive Ending where
  | returned (vs : List Value)
  | failed (f : Failure)
  /-- The text of the panic, if it has one. -/
  | panicked (text : Option String)
  deriving Inhabited

/-- The values that an ending hands over. -/
def Ending.values : Ending → List Value
  | .returned vs => vs
  | _ => []

/-- What happens next. -/
inductive Control where
  /-- The innermost activity goes on. -/
  | proceed
  /-- A runtime runs. -/
  | script (session : SessionId)
  /-- The innermost body is left. -/
  | leave (ending : Ending)
  | done
  deriving Inhabited

/-- When a runtime makes a collection of its own accord, and how many finalizers it calls. -/
inductive Whim where
  /-- Not now. -/
  | pass
  /-- After so many steps of the script that runs. -/
  | amid (steps budget : Nat)
  /-- While the host does not run a script. -/
  | upon (session : SessionId) (budget : Nat)
  deriving Inhabited

structure World where
  sessions : Std.TreeMap SessionId Session
  /-- How many session numbers have been given out. -/
  issued : Nat
  /-- The names of the sessions that programs can use, the oldest session first. -/
  names : List (String × SessionId)
  slots : Slots
  /-- Callables defined under a name. -/
  defined : Std.TreeMap String CallableId
  directory : Directory
  callables : Std.TreeMap CallableId Callable
  nextCallable : CallableId
  activities : List Activity
  control : Control
  /-- When collections are made that nobody asked for. -/
  whims : List Whim
  /-- What has been reported, the latest first. -/
  events : List Event

abbrev Act := StateM World

/-- A part of a step, which may fail. -/
abbrev Try := ExceptT Mishap Act

namespace World

open scoped CoreInstances

/-- The world before a program has run, where each session has an address for its runtime. -/
def startAt (address : SessionId → Address) (program : List Step) (whims : List Whim) : World where
  sessions := ∅
  issued := 0
  names := []
  slots := ∅
  defined := ∅
  directory := .new address
  callables := ∅
  nextCallable := 0
  activities := [.program none program]
  control := .proceed
  whims := whims
  events := []

/-- The world before a program has run, where no address is ever used again. -/
def start (program : List Step) (whims : List Whim) : World := startAt id program whims

/-! ## The directory -/

/-- Works on the directory. -/
def onDirectory {α : Type} (op : Clerk α) : Act α :=
  modifyGet fun w =>
    let (a, d) := op.run w.directory
    (a, { w with directory := d })

/-- The session that owns the runtime of a session, by the session map. -/
def ownerOf (id : SessionId) : Act (Option SessionId) := do
  let w ← get
  onDirectory (Directory.resolve (w.directory.address id))

/-! ## Sessions -/

/-- Works on a session.  The world lets go of it in the meantime. -/
def onSession {α : Type} [Inhabited α] (id : SessionId) (op : Op α) : Act α :=
  modifyGet fun w =>
    match w.sessions[id]? with
    | none => (default, w)
    | some s =>
      let w := { w with sessions := w.sessions.insert id default }
      let (a, s) := op.run s
      (a, { w with sessions := w.sessions.insert id s })

instance {α : Type} : Inhabited (Except Failure α) := ⟨.error default⟩

/-- Works on a session, which may fail. -/
def attemptOn {α : Type} (id : SessionId) (op : Attempt α) : Act (Except Failure α) :=
  onSession id op.run

/-- The number of a new session. -/
def freshSessionId : Act SessionId :=
  modifyGet fun w => (w.issued + 1, { w with issued := w.issued + 1 })

/-- Whether something in progress uses a session. -/
def inUse (w : World) (id : SessionId) : Bool :=
  w.activities.any fun
    | .step _ (.executing s _) => s == id
    | .step _ (.calling s ..) => s == id
    | .delivering d _ => d.session == id
    | .sweeping s => s == id
    | _ => false

/-! ## Reports -/

/-- How many calls of host callables are in progress. -/
def depth (w : World) : Nat :=
  w.activities.countP fun
    | .program (some _) _ => true
    | _ => false

/-- The outstanding allocations of all sessions, the oldest first. -/
def outstanding (w : World) : List (Option Int) :=
  w.sessions.toList.map fun (id, s) =>
    if w.names.any fun e => e.2 == id then some s.ledger.outstanding else none

def report (what : Happening) : Act Unit :=
  modify fun w => { w with events := ⟨what, w.depth, w.outstanding⟩ :: w.events }

/-! ## Letting go -/

/-- Something to be let go of. -/
inductive Chore where
  | value (v : Value)
  | cell (session : SessionId) (id : CellId)
  /-- One of the owners of a callable. -/
  | callable (id : CallableId)
  /-- Weight to be taken off a ledger. -/
  | settle (session : SessionId) (weight : Nat)

/-- Lets go of one thing; what that sets free is handed over. -/
def chore : Chore → Act (List Chore)
  | .value (.reference ref) => return [.cell ref.session ref.cell]
  | .value (.function ref) => return [.cell ref.session ref.cell]
  | .value (.callable id) => return [.callable id]
  | .value _ => return []
  | .cell session id => do
    let (weight, callable) ← onSession session (Session.withdraw id)
    return callable.toList.map Chore.callable ++ [.settle session weight]
  | .settle session weight => do
    onSession session (Session.settle weight)
    return []
  | .callable id => do
    match (← get).callables[id]? with
    | none => return []
    | some c =>
      if 1 < c.owners then
        modify fun w => { w with
          callables := w.callables.insert id { c with owners := c.owners - 1 } }
        return []
      else
        if c.code.watched then report (.dropped c.code.name)
        modify fun w => { w with callables := w.callables.erase id }
        return c.captured.toList.map fun e => .value e.2.value

/-- Lets go of things one after the other, what each of them sets free before the next. -/
def chores : (fuel : Nat) → List Chore → Act Unit
  | 0, _ => return ()
  | _, [] => return ()
  | fuel + 1, c :: rest => do
    let freed ← chore c
    chores fuel (freed ++ rest)

/-- A bound on the things set free by letting go of some. -/
def choreBound (w : World) (given : Nat) : Nat :=
  4 * (given + (w.callables.toList.map fun e => e.2.captured.size).sum) + 1

/-- Lets go of things. -/
def release (cs : List Chore) : Act Unit := do
  if cs.isEmpty then return ()
  let w ← get
  let bound := w.choreBound cs.length
  chores bound cs

/-- Whether letting go of a value does nothing. -/
def isInert : Value → Bool
  | .reference _ | .function _ | .callable _ => false
  | _ => true

/-- Drops values, the first one first. -/
def dropValues (vs : List Value) : Act Unit :=
  release ((vs.filter fun v => !isInert v).map Chore.value)

def dropValue (v : Value) : Act Unit := dropValues [v]

/-- Drops what is in slots, in the order of their names. -/
def dropSlots (slots : Slots) : Act Unit := dropValues (slots.toList.map fun e => e.2.value)

/-- Notes that a callable has an owner more. -/
def retain (id : CallableId) : Act Unit :=
  modify fun w => { w with
    callables := w.callables.modify id fun c => { c with owners := c.owners + 1 } }

def retainAll (ids : List CallableId) : Act Unit := ids.forM retain

/-- The callables among values. -/
def callablesOf (vs : List Value) : List CallableId :=
  vs.filterMap fun
    | .callable id => some id
    | _ => none

/-- Releases the cells that a transfer owns. -/
def releaseOutbound (session : SessionId) (outs : List Session.Outbound) : Act Unit :=
  release (outs.filterMap fun o => o.owned?.map (Chore.cell session))

/-- A new callable with one owner. -/
def newCallable (code : CallableExpr) (captured : Slots) : Act CallableId :=
  modifyGet fun w =>
    (w.nextCallable, { w with
      callables := w.callables.insert w.nextCallable ⟨code, captured, 1⟩
      nextCallable := w.nextCallable + 1 })

/-! ## Slots -/

/-- The frame of the innermost program, if it is a callable's body. -/
def frame? (w : World) : Option Frame :=
  (w.activities.findSome? fun
    | .program frame _ => some frame
    | _ => none).join

/-- Changes the frame of the innermost program. -/
def modifyFrame (change : Frame → Frame) : List Activity → List Activity
  | [] => []
  | .program frame rest :: more => .program (frame.map change) rest :: more
  | a :: more => a :: modifyFrame change more

/-- The name of the frame's slot for the argument at a position. -/
def argumentName (position : Nat) : String := "$" ++ position.repr

/-- What a slot's name stands for here: names that begin with a dollar sign are the frame's,
those with a caret the callable's, and all others the world's. -/
def locate (w : World) (name : String) : Option Loan :=
  match name.toList with
  | '$' :: _ => w.frame?.map fun _ => .ofFrame name
  | '^' :: _ => w.frame?.bind fun f =>
    if w.callables.contains f.callable then some (.ofCallable f.callable name) else none
  | _ => some (.ofWorld name)

/-- The slot at a place. -/
def slotAt (w : World) : Loan → Option Slot
  | .ofWorld name => w.slots[name]?
  | .ofCallable id name => (w.callables[id]?).bind fun c => c.captured[name]?
  | .ofFrame name => w.frame?.bind fun f => f.slots[name]?

/-- Slots of which one is filled or emptied. -/
def putSlot (t : Slots) (name : String) : Option Slot → Slots
  | some slot => t.insert name slot
  | none => t.erase name

/-- Fills or empties the slot at a place. -/
def setSlotAt (w : World) (place : Loan) (slot : Option Slot) : World :=
  match place with
  | .ofWorld name => { w with slots := putSlot w.slots name slot }
  | .ofCallable id name => { w with
      callables := w.callables.modify id fun c =>
        { c with captured := putSlot c.captured name slot } }
  | .ofFrame name => { w with
      activities := modifyFrame (fun f => { f with slots := putSlot f.slots name slot })
        w.activities }

/-- The slot of a name, which must be filled. -/
def filledSlot (name : String) : Try (Loan × Slot) := do
  let w ← get
  match w.locate name with
  | none => throw (.misuse .emptySlot)
  | some place =>
    match w.slotAt place with
    | none => throw (.misuse .emptySlot)
    | some slot => return (place, slot)

/-- Moves the value out of a slot. -/
def takeSlot (name : String) : Try Value := do
  let (place, slot) ← filledSlot name
  if slot.borrows ≠ 0 then throw (.misuse .busy)
  modify fun w => w.setSlotAt place none
  return slot.value

/-- Leaves a replaced value to the outermost call that borrows its slot; none if no call does. -/
def entrust (place : Loan) (v : Value) : List Activity → Option (List Activity)
  | [] => none
  | a :: rest =>
    match entrust place v rest with
    | some rest => some (a :: rest)
    | none =>
      if a.borrows place then
        a.calling?.map fun c => a.withCalling { c with replaced := some v } :: rest
      else none

/-- Puts a value into a slot; what was there is dropped, or left to the call that borrows it. -/
def storeSlot (name : String) (v : Value) : Try Unit := do
  let w ← get
  match w.locate name with
  | none =>
    dropValue v
    throw (.misuse .emptySlot)
  | some place =>
    match w.slotAt place with
    | none => modify fun w => w.setSlotAt place (some ⟨v, 0⟩)
    | some old =>
      modify fun w => w.setSlotAt place (some ⟨v, 0⟩)
      if old.borrows = 0 then dropValue old.value
      else
        match entrust place old.value (← get).activities with
        | some activities => modify fun w => { w with activities }
        | none => dropValue old.value

/-- The world with a slot given back that was borrowed. -/
def unborrow (w : World) (place : Loan) : World :=
  match w.slotAt place with
  | some slot => w.setSlotAt place (some { slot with borrows := slot.borrows - 1 })
  | none => w

/-- Gives a borrowed slot back. -/
def giveBack (c : Calling) : Act Unit := do
  match c.replaced with
  | some v => dropValue v
  | none => modify fun w => w.unborrow c.loan

/-- Puts a value into a slot if one is named, or drops it. -/
def keepOrDrop (into : Option String) (v : Value) : Try Unit :=
  match into with
  | some name => storeSlot name v
  | none => dropValue v

end World

end ScriptBridge.Host

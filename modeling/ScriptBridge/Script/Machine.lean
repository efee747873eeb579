import ScriptBridge.Script.Code
import ScriptBridge.Script.Table

/-!
# ScriptBridge.Script.Machine

The state of a script runtime: the objects that exist, the coroutines with their frames, and
what is to be done next.  Everything a running script does is a sequence of small steps on
this state; calls from scripts into the library, into other scripts and into the host are
frames on a stack, not recursion.

The machine stops by itself only at a `Pause`: when a script calls a host callable, when the
handle of one is to be released, when a collection is asked for, and when a call that the host
began, or a collection that came upon the host, has ended.
-/

namespace ScriptBridge.Script

/-! ## Frames -/

/-- How the results of a call are taken over by the function that made it. -/
inductive Await where
  | exactly (n : Nat)
  | all
  | discard
  /-- The result decides a comparison. -/
  | truth (negate : Bool)
  /-- The result is the last operand of a concatenation with `n` operands before it. -/
  | concat (n : Nat)
  /-- The result goes below the operand on top. -/
  | beneath
  /-- The results are dropped, and the instruction that made the call is done once more. -/
  | again
  deriving DecidableEq, Inhabited

/-- A running script function. -/
structure Activation where
  closure : ClosureId
  proto : Proto
  upvals : Array BoxId
  pc : Nat
  slots : Array Value
  boxes : Array BoxId
  operands : List Value
  /-- Results to be spread into the next instruction. -/
  spread : List Value
  varargs : List Value
  /-- Variables to be closed, the latest first, by place. -/
  closers : List (Nat × Value)
  await : Await

instance : Inhabited Activation := ⟨⟨0, default, #[], 0, #[], #[], [], [], [], [], .discard⟩⟩

/-- What a library function does with the results of what it called. -/
inductive Task where
  /-- Passes them on after `true`; an error is caught, with the handler applied to it. -/
  | guarded (handler : Option Value)
  /-- Waits for a coroutine. -/
  | resuming (co : ThreadId)
  /-- Waits for a coroutine whose errors are its own. -/
  | wrapping (co : ThreadId)
  /-- Demands a string. -/
  | textResult
  /-- Passes the first `n` on. -/
  | firstResults (n : Nat)
  /-- Calls the finalizers that are due, one after the other. -/
  | collecting
  /-- Calls at most so many of them, in a collection that nobody asked for. -/
  | sweeping (budget : Nat)
  deriving DecidableEq, Inhabited

/-- What is left of a collection after one more finalizer; none if that is one too many. -/
def Task.next? : Task → Option Task
  | .sweeping 0 => none
  | .sweeping (n + 1) => some (.sweeping n)
  | task => some task

/-- A place on a stack that is not a function. -/
inductive Mark where
  /-- The bottom of a coroutine. -/
  | coroutine
  /-- A call the host began: results and errors go to the host. -/
  | fromHost
  /-- A finalizer: its results and errors are dropped. -/
  | finalizer
  /-- A message handler: its result is the error to be raised. -/
  | handling
  /-- The closing of a variable while an error is raised. -/
  | closing (error : Value)
  deriving DecidableEq, Inhabited

/-- What every frame records. -/
structure FrameInfo where
  /-- The first stack slot of the frame. -/
  base : Nat
  /-- How many calls nest that are not from script to script. -/
  depth : Nat
  /-- Whether no coroutine may be left through the frame. -/
  fixed : Bool
  deriving DecidableEq, Inhabited

inductive Frame where
  | script (info : FrameInfo) (a : Activation)
  | library (info : FrameInfo) (task : Task)
  /-- Host code: the upvalue of the closure that was called, and the values it works on, the
  top of the stack first. -/
  | host (info : FrameInfo) (upvalue : Value) (operands : List Value)
  | mark (info : FrameInfo) (mark : Mark)

namespace Frame

instance : Inhabited Frame := ⟨.host ⟨0, 0, true⟩ .nil []⟩

def info : Frame → FrameInfo
  | .script info _ | .library info _ | .host info _ _ | .mark info _ => info

/-- The first stack slot above the frame. -/
def top : Frame → Nat
  | .script info a => info.base + a.proto.slots + a.operands.length
  | .library info _ => info.base
  | .host info _ operands => info.base + operands.length
  | .mark info _ => info.base

end Frame

/-! ## Objects -/

structure Closure where
  proto : Proto
  upvals : Array BoxId

instance : Inhabited Closure := ⟨⟨default, #[]⟩⟩

/-- Functions with values of their own. -/
inductive NativeKind where
  /-- Calls a host callable. -/
  | host
  /-- Resumes a coroutine. -/
  | wrap
  /-- Yields the matches of a pattern, from a position on; the end of the last match tells an
  empty match at the same place apart. -/
  | matches (position : Nat) (lastEnd : Option Nat)
  deriving DecidableEq, Inhabited

structure Native where
  kind : NativeKind
  upvalues : Array Value

instance : Inhabited Native := ⟨⟨.host, #[]⟩⟩

structure Userdata where
  metatable : Option TableId
  deriving Inhabited

inductive ThreadStatus where
  /-- Not begun: the function it will run. -/
  | fresh (body : Value)
  | suspended
  /-- Running, or waiting for a coroutine it resumed. -/
  | active
  | dead
  deriving DecidableEq, Inhabited

/-- A coroutine; the frames of the running one are kept in the machine. -/
structure Thread where
  status : ThreadStatus
  frames : List Frame
  resumer : Option ThreadId

instance : Inhabited Thread := ⟨⟨.dead, [], none⟩⟩

/-- An object that can have a finalizer. -/
inductive Finalizable where
  | table (id : TableId)
  | userdata (id : UserdataId)
  deriving DecidableEq, Inhabited

def Finalizable.value : Finalizable → Value
  | .table id => .table id
  | .userdata id => .userdata id

/-! ## The machine -/

/-- Why the machine waits for the host. -/
inductive Pause where
  /-- A host callable was called: its frame is on top. -/
  | invoked
  /-- A handle is to be released; this is what the release was asked for. -/
  | releasing (target : Value)
  /-- A collection is to be made. -/
  | collecting
  /-- The call begun last by the host returned: its results are on the host's frame. -/
  | returned
  /-- It failed: the error is on the host's frame. -/
  | raised
  /-- The finalizers of a runtime that is being closed have all run. -/
  | closed
  /-- A collection that came upon the host is over. -/
  | swept
  deriving DecidableEq, Inhabited

/-- What the machine does next. -/
inductive Mode where
  /-- Goes on with the top frame. -/
  | run
  | call (f : Value) (args : List Value)
  /-- Hands results to the top frame. -/
  | deliver (values : List Value)
  /-- Raises an error, without calling a message handler. -/
  | unwind (error : Value)
  | paused (p : Pause)
  deriving DecidableEq, Inhabited

structure Machine where
  tables : Array (Option Table)
  closures : Array (Option Closure)
  natives : Array (Option Native)
  userdata : Array (Option Userdata)
  threads : Array (Option Thread)
  boxes : Array (Option Value)
  globals : TableId
  /-- The table of loaded libraries. -/
  loaded : Option TableId
  /-- Metatables shared by all values of a type. -/
  kindMetatables : List (Value.Kind × TableId)
  /-- The metatable of the userdata that hold handles. -/
  handleMetatable : TableId
  /-- Objects marked for finalization, the latest first. -/
  finalizable : List Finalizable
  /-- Objects whose finalizers are due, the next first. -/
  due : List Finalizable
  /-- Whether a collection is running its finalizers. -/
  collecting : Bool
  closing : Bool
  /-- Whether scripts have asked for no collections but those they order. -/
  stopped : Bool
  /-- Whether the extra stack space for handling an overflow is in use. -/
  overflowed : Bool
  current : ThreadId
  /-- The frames of the running coroutine, the top first. -/
  frames : List Frame
  mode : Mode

namespace Machine

/-- The number of the main thread. -/
def main : ThreadId := 0

instance : Inhabited Machine :=
  ⟨⟨#[], #[], #[], #[], #[], #[], 0, none, [], 0, [], [], false, false, false, false, 0, [],
    .paused .closed⟩⟩

/-! ## Objects by number -/

def table (m : Machine) (id : TableId) : Table := (m.tables.getD id none).getD default
def closure (m : Machine) (id : ClosureId) : Closure := (m.closures.getD id none).getD default
def native (m : Machine) (id : NativeId) : Native := (m.natives.getD id none).getD default
def thread (m : Machine) (id : ThreadId) : Thread := (m.threads.getD id none).getD default
def box (m : Machine) (id : BoxId) : Value := (m.boxes.getD id none).getD .nil

/-- The table that a value is; none if it is no table, or one that is not there. -/
def tableOf? (m : Machine) : Value → Option TableId
  | .table id => if (m.tables.getD id none).isSome then some id else none
  | _ => none

def modifyTable (m : Machine) (id : TableId) (f : Table → Table) : Machine :=
  { m with tables := m.tables.modify id (Option.map f) }

def setBox (m : Machine) (id : BoxId) (v : Value) : Machine :=
  { m with boxes := m.boxes.setIfInBounds id (some v) }

def setThread (m : Machine) (id : ThreadId) (t : Thread) : Machine :=
  { m with threads := m.threads.setIfInBounds id (some t) }

def newTable (m : Machine) (t : Table) : TableId × Machine :=
  (m.tables.size, { m with tables := m.tables.push (some t) })

def newClosure (m : Machine) (c : Closure) : ClosureId × Machine :=
  (m.closures.size, { m with closures := m.closures.push (some c) })

def newNative (m : Machine) (n : Native) : NativeId × Machine :=
  (m.natives.size, { m with natives := m.natives.push (some n) })

def newUserdata (m : Machine) (metatable : Option TableId) : UserdataId × Machine :=
  (m.userdata.size, { m with userdata := m.userdata.push (some ⟨metatable⟩) })

def newThread (m : Machine) (body : Value) : ThreadId × Machine :=
  (m.threads.size, { m with threads := m.threads.push (some ⟨.fresh body, [], none⟩) })

def newBox (m : Machine) (v : Value) : BoxId × Machine :=
  (m.boxes.size, { m with boxes := m.boxes.push (some v) })

/-- The value under a key of a table, without metamethods. -/
def rawGet (m : Machine) (id : TableId) (k : Value) : Value := (m.table id).get k

def rawSet (m : Machine) (id : TableId) (k v : Value) : Machine :=
  m.modifyTable id fun t => t.set k v

/-! ## Metatables -/

def metatable? (m : Machine) : Value → Option TableId
  | .table id => (m.table id).metatable
  | .userdata id => ((m.userdata.getD id none).getD default).metatable
  | v => (m.kindMetatables.find? fun e => e.1 == v.kind).map (·.2)

/-- A field of a value's metatable; nil where there is none. -/
def metafield (m : Machine) (v : Value) (event : String) : Value :=
  match m.metatable? v with
  | some id => (m.table id).getText event
  | none => .nil

/-- Notes that an object is to be finalized, if its metatable says so and it is not noted
yet.  While the runtime is being closed nothing is noted any more. -/
def noteFinalizer (m : Machine) (o : Finalizable) (metatable : Option TableId) : Machine :=
  match metatable with
  | none => m
  | some id =>
    if m.closing || ((m.table id).getText "__gc").isNil || m.finalizable.contains o
        || m.due.contains o then m
    else { m with finalizable := o :: m.finalizable }

/-- Gives a value a metatable; values other than tables and userdata share one by type. -/
def setMetatable (m : Machine) (v : Value) (metatable : Option TableId) : Machine :=
  match v with
  | .table id =>
    (m.modifyTable id fun t => { t with metatable }).noteFinalizer (.table id) metatable
  | .userdata id =>
    { m with userdata := m.userdata.modify id (Option.map fun _ => ⟨metatable⟩) }.noteFinalizer
      (.userdata id) metatable
  | v =>
    let others := m.kindMetatables.filter fun e => e.1 != v.kind
    { m with kindMetatables :=
        match metatable with
        | some id => (v.kind, id) :: others
        | none => others }

/-! ## Frames of a thread -/

/-- The frames of a thread, the top first. -/
def framesOf (m : Machine) (t : ThreadId) : List Frame :=
  if t = m.current then m.frames else (m.thread t).frames

/-- The record of the top frame of the running coroutine. -/
def topInfo (m : Machine) : FrameInfo :=
  match m.frames with
  | f :: _ => f.info
  | [] => ⟨0, 0, false⟩

/-- The first free stack slot of the running coroutine. -/
def stackTop (m : Machine) : Nat :=
  match m.frames with
  | f :: _ => f.top
  | [] => 1

def push (m : Machine) (f : Frame) : Machine := { m with frames := f :: m.frames }

end Machine

/-- The number of values a stack holds at most, and what is there beyond for handling an
overflow. -/
def stackLimit : Nat := 1000000

def stackReserve : Nat := 200

/-- How deep calls that are not from script to script nest at most. -/
def depthLimit : Nat := 200

end ScriptBridge.Script

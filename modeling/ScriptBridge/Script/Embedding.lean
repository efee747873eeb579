import ScriptBridge.Script.Collector
import ScriptBridge.Script.Startup

/-!
# ScriptBridge.Script.Embedding

What the host does with a runtime that waits for it: working on the operands of its frame,
calling functions, answering the calls of host functions, reading scripts, and ending the
runtime.

The host's frame is the top frame of the thread it was called from, or the bottom frame of the
main thread.
-/

namespace ScriptBridge.Script

namespace Machine

/-! ## The operands of the host -/

/-- The values on the host's frame of a thread, the top first. -/
def operandsOf (m : Machine) (t : ThreadId) : List Value :=
  match m.framesOf t with
  | .host _ _ operands :: _ => operands
  | _ => []

def setFramesOf (m : Machine) (t : ThreadId) (frames : List Frame) : Machine :=
  if t = m.current then { m with frames := frames }
  else m.setThread t { m.thread t with frames := frames }

/-- Changes the values on the host's frame of a thread. -/
def setOperands (m : Machine) (t : ThreadId) (operands : List Value) : Machine :=
  match m.framesOf t with
  | .host info upvalue _ :: rest => m.setFramesOf t (.host info upvalue operands :: rest)
  | _ => m

def pushOperand (m : Machine) (t : ThreadId) (v : Value) : Machine :=
  m.setOperands t (v :: m.operandsOf t)

/-- Takes the operands above the lowest `base` away; the first one pushed is first. -/
def takeOperands (m : Machine) (t : ThreadId) (base : Nat) : List Value × Machine :=
  let operands := m.operandsOf t
  let count := operands.length - base
  ((operands.take count).reverse, m.setOperands t (operands.drop count))

/-- Takes the value on top away. -/
def dropOperand (m : Machine) (t : ThreadId) : Machine := m.setOperands t ((m.operandsOf t).drop 1)

/-- Takes the value below the top away. -/
def dropBelow (m : Machine) (t : ThreadId) : Machine :=
  match m.operandsOf t with
  | v :: _ :: operands => m.setOperands t (v :: operands)
  | _ => m

/-- Reads a field, without metamethods: the key is on top, and its value takes its place; the table
is below. -/
def getField (m : Machine) (t : ThreadId) : Machine :=
  match m.operandsOf t with
  | key :: .table id :: operands => m.setOperands t (m.rawGet id key :: .table id :: operands)
  | _ => m

/-- Sets a field, without metamethods: the value is on top, and the key below it, and both go away;
the table is below them, with `between` other values above it. -/
def setField (m : Machine) (t : ThreadId) (between : Nat) : Machine :=
  match m.operandsOf t with
  | v :: key :: operands =>
    match operands[between]? with
    | some (.table id) => (m.setOperands t operands).rawSet id key v
    | _ => m
  | _ => m

/-! ## Calls in both directions -/

/-- Calls the function that lies below the `count` operands on top, with them as arguments. -/
def startCall (m : Machine) (count : Nat) : Machine :=
  match m.frames with
  | .host info upvalue operands :: rest =>
    let (args, operands) := takeArgs count operands []
    match operands with
    | f :: operands =>
      let below : Frame := .host info upvalue operands
      { m with
        frames := .mark ⟨below.top, info.depth, true⟩ .fromHost :: below :: rest
        mode := .call f args }
    | [] => m
  | _ => m

/-- Returns from a host function with the values on its frame. -/
def returnFromHost (m : Machine) : Machine :=
  match m.frames with
  | .host _ _ operands :: rest => { m with frames := rest, mode := .deliver operands.reverse }
  | _ => m

/-- Leaves a host function with the value on top of its frame as an error. -/
def failFromHost (m : Machine) : Machine :=
  match m.frames with
  | .host _ _ (error :: _) :: _ => m.raise error
  | _ => m

/-- The upvalue of the host function that was called. -/
def hostUpvalue (m : Machine) : Value :=
  match m.frames with
  | .host _ upvalue _ :: _ => upvalue
  | _ => .nil

/-! ## Host functions -/

/-- A userdata for a handle, and the host function that owns it. -/
def newHostFunction (m : Machine) : UserdataId × Value × Machine :=
  let (owner, m) := m.newUserdata (some m.handleMetatable)
  let m := m.noteFinalizer (.userdata owner) (some m.handleMetatable)
  let (id, m) := m.newNative ⟨.host, #[.userdata owner]⟩
  (owner, .native id, m)

/-- Whether a value is a userdata of the type that holds handles. -/
def holdsHandle (m : Machine) (v : Value) : Bool :=
  match v with
  | .userdata _ => m.metatable? v == some m.handleMetatable
  | _ => false

/-- Whether a value is a function that is not a script's, with a userdata for a handle as its
first upvalue. -/
def isHostClosure (m : Machine) (v : Value) : Bool :=
  match v with
  | .native id => m.holdsHandle ((m.native id).upvalues.getD 0 .nil)
  | _ => false

/-! ## Scripts -/

/-- The first byte of scripts in compiled form, which are refused. -/
def compiledMark : UInt8 := 0x1b

/-- Reads a script and puts it, as a function, on the host's frame; or the text of the error, if it
cannot be read. -/
def load (m : Machine) (t : ThreadId) (source chunk : Bytes) : Bool × Machine :=
  let label := chunkLabel chunk
  let depth := match m.framesOf t with
    | f :: _ => f.info.depth
    | [] => 0
  if source[0]? == some compiledMark then
    (false, m.pushOperand t (.str (bytes "attempt to load a binary chunk (mode is 't')")))
  else
    match parse source depth (fun _ => none) with
    | .error e => (false, m.pushOperand t (.str (e.text label)))
    | .ok f =>
      let (env, m) := m.newBox (.table m.globals)
      let (id, m) := m.newClosure ⟨f.compile label false, #[env]⟩
      (true, m.pushOperand t (.closure id))

/-! ## Collections that nobody asked for -/

/-- Whether the runtime may make a collection of its own accord: scripts have not stopped it,
none is in progress, and a script or the host is on top. -/
def canCollect (m : Machine) : Bool :=
  !m.collecting && !m.closing && !m.stopped &&
    match m.mode, m.frames with
    | .run, .script .. :: _ => true
    | .paused _, .host .. :: _ => true
    | _, _ => false

/-- A collection that the runtime makes of its own accord, if it may; at most `budget` of the
finalizers that are due are called. -/
def strike (m : Machine) (anchors : List Value) (budget : Nat) : Machine :=
  if m.canCollect then
    let m := m.collect anchors
    let frame : Frame := .library ⟨m.stackTop, m.topInfo.depth, true⟩ (.sweeping budget)
    { m with frames := frame :: m.frames, collecting := true, mode := .deliver [] }
  else m

/-! ## The end -/

/-- Begins to close the runtime: all finalizers are due, on the main thread. -/
def startClose (m : Machine) : Machine :=
  { m with
    closing := true
    current := main
    frames := [.library ⟨1, 0, true⟩ .collecting]
    due := m.due ++ m.finalizable
    finalizable := []
    mode := .deliver [] }

end Machine

end ScriptBridge.Script

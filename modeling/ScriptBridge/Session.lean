import ScriptBridge.Ledger
import ScriptBridge.Settings
import ScriptBridge.Script.Collector
import ScriptBridge.Script.Embedding
import ScriptBridge.Value

/-!
# ScriptBridge.Session

A session: one script runtime and what ties it to the host.

* `cells` are the values on their way across the boundary, and those the host holds references
  to; the `ledger` counts the allocations they stand for.
* `anchors` keep script values alive for the cells that refer to them.
* `pins` keep host callables alive, under the handles by which cells and the runtime know them.
* `active` is the thread that host operations run on: the main thread, or the one from which a
  host callable was entered.  It is none once the session is closed.
-/

namespace ScriptBridge

structure Session where
  id : SessionId
  label : String
  /-- The name under which errors report its scripts. -/
  chunk : Script.Bytes
  machine : Script.Machine
  isOpen : Bool
  active : Option Script.ThreadId
  ledger : Ledger
  pins : Registry CallableId
  cells : Std.TreeMap CellId Cell
  nextCell : CellId
  anchors : Anchors Script.Value
  /-- The userdata that hold a handle, the latest first, each with its handle. -/
  handles : List (Script.UserdataId × Handle)

/-- Something done to a session. -/
abbrev Op := StateM Session

/-- Something done to a session that can fail. -/
abbrev Attempt := ExceptT Failure Op

namespace Session

/-- A new session. -/
def start (id : SessionId) (options : Settings) : Session where
  id := id
  label := options.labelOf id
  chunk := options.chunkBytes
  machine := .new options.stdlib
  isOpen := true
  active := some Script.Machine.main
  ledger := .empty
  pins := .empty
  cells := ∅
  nextCell := 0
  anchors := .empty
  handles := []

instance : Inhabited Session :=
  ⟨⟨0, "", ∅, default, false, none, .empty, .empty, ∅, 0, .empty, []⟩⟩

/-- Works on the runtime.  The session lets go of it in the meantime. -/
@[inline] def withMachine {α : Type} (f : Script.Machine → α × Script.Machine) : Op α :=
  modifyGet fun s =>
    let m := s.machine
    let s := { s with machine := default }
    let (a, m) := f m
    (a, { s with machine := m })

@[inline] def modifyMachine (f : Script.Machine → Script.Machine) : Op Unit :=
  withMachine fun m => ((), f m)

/-- The thread that host operations run on. -/
def thread : Attempt Script.ThreadId := do
  match (← get).active with
  | some t => return t
  | none => throw .sessionClosed

/-! ## Cells -/

/-- Puts a cell on the ledger. -/
def store (c : Cell) : Op CellId :=
  modifyGet fun s =>
    (s.nextCell, { s with
      cells := s.cells.insert s.nextCell c
      nextCell := s.nextCell + 1
      ledger := s.ledger.acquire c.weight })

def cell? (s : Session) (id : CellId) : Option Cell := s.cells[id]?

/-- Keeps a script value alive. -/
def anchor (v : Script.Value) : Op Anchor :=
  modifyGet fun s =>
    let (slot, anchors) := s.anchors.take v
    (slot, { s with anchors })

/-- Takes a cell away and lets go of what it owns: a pin, whose callable is handed over, or an
anchor, as long as the session is open.  Its weight is still on the ledger. -/
def withdraw (id : CellId) : Op (Nat × Option CallableId) :=
  modifyGet fun s =>
    match s.cell? id with
    | none => ((0, none), s)
    | some c =>
      let s := { s with cells := s.cells.erase id }
      match c.handle?, c.anchor? with
      | some handle, _ =>
        let (callable, pins) := s.pins.release handle
        ((c.weight, callable), { s with pins := pins })
      | none, some anchor =>
        ((c.weight, none),
          if s.active.isSome then { s with anchors := s.anchors.free anchor } else s)
      | none, none => ((c.weight, none), s)

/-- Takes weight off the ledger. -/
def settle (weight : Nat) : Op Unit :=
  modify fun s => { s with ledger := s.ledger.release weight }

/-- Releases a cell that pins no callable, or one whose callable others own too. -/
def free (id : CellId) : Op Unit := do
  let (weight, _) ← withdraw id
  settle weight

/-- Counts an allocation that is released at once. -/
def touch : Op Unit :=
  modify fun s => { s with ledger := (s.ledger.acquire 1).release 1 }

/-! ## From the host to the runtime -/

/-- A value on its way to the runtime. -/
inductive Outbound where
  | nil
  /-- A cell made for this transfer. -/
  | owned (cell : CellId)
  /-- The cell of a reference, which stays its holder's. -/
  | lent (cell : CellId)
  deriving DecidableEq, Inhabited

/-- The cell that a value travels in. -/
def Outbound.cell? : Outbound → Option CellId
  | .nil => none
  | .owned cell => some cell
  | .lent cell => some cell

/-- The cell that a transfer owns. -/
def Outbound.owned? : Outbound → Option CellId
  | .owned cell => some cell
  | _ => none

/-- A reference is lent to its own session only. -/
def borrow (ref : Ref) : Attempt Outbound := do
  let s ← get
  if ref.session = s.id then return .lent ref.cell
  else throw (.wrongSession s.id ref.session)

/-- Makes a value ready for its way to the runtime.  A callable is pinned. -/
def pack : Value → Attempt Outbound
  | .nil => return .nil
  | .number x => return .owned (← store (.number x))
  | .boolean b => return .owned (← store (.boolean b))
  | .string text => return .owned (← store (.string text.toUTF8))
  | .reference ref => borrow ref
  | .function ref => borrow ref
  | .callable id => do
    let handle ← modifyGet fun s =>
      let (handle, pins) := s.pins.pin id
      (handle, { s with pins := pins })
    return .owned (← store (.pinned handle))

/-- Releases the cells of transfers that did not come about. -/
def abandon : List Outbound → Op Unit
  | [] => return ()
  | .owned cell :: rest => do
    free cell
    abandon rest
  | _ :: rest => abandon rest

/-- Makes the values from position `index` on ready; `done` are those before. -/
def packFrom : (index : Nat) → (done : List Outbound) → List Value → Attempt (List Outbound)
  | _, done, [] => return done.reverse
  | index, done, v :: rest => do
    let out ← tryCatch (pack v) fun failure => do
      abandon done.reverse
      throw (failure.ofItem index)
    packFrom (index + 1) (out :: done) rest

/-- Makes a list of values ready, or none of them. -/
def packAll (vs : List Value) : Attempt (List Outbound) := packFrom 0 [] vs

/-- Pins the callable that is on its way once more, for the function that the runtime will get:
the cell keeps its own pin.  Nothing is pinned for any other value. -/
def repin (out : Outbound) : Attempt (Option (Handle × CallableId)) := do
  let s ← get
  match out.cell?.bind s.cell? with
  | some (.pinned handle) =>
    match s.pins.get? handle, s.pins.repin handle with
    | some callable, some (pin, pins) =>
      set { s with pins }
      return some (pin, callable)
    | _, _ => throw (.notCallable handle)
  | _ => return none

/-- Puts a new host function on the host's frame of a thread; the function owns the pin. -/
def build (t : Script.ThreadId) (pin : Handle) : Op Unit := do
  let owner ← withMachine fun m =>
    let (owner, f, m) := m.newHostFunction
    (owner, m.pushOperand t f)
  modify fun s => { s with handles := (owner, pin) :: s.handles }

/-- The script value of a cell that pins no callable. -/
def valueOf (s : Session) (out : Outbound) : Script.Value :=
  match out.cell?.bind s.cell? with
  | some (.number x) => .float x
  | some (.boolean b) => .bool b
  | some (.string text) => .str text
  | some (.function anchor _) => (s.anchors.get? anchor).getD .nil
  | some (.object anchor _) => (s.anchors.get? anchor).getD .nil
  | some (.pinned _) => .nil
  | none => .nil

/-- Puts the value of a cell that pins no callable on the host's frame of a thread. -/
def place (t : Script.ThreadId) (out : Outbound) : Op Unit := do
  let v := (← get).valueOf out
  modifyMachine fun m => m.pushOperand t v

/-- Puts the value of a cell on the host's frame of a thread.  A callable gets a host function
of its own, with a pin of its own: the callable is handed over, because it has an owner more. -/
def push (t : Script.ThreadId) (out : Outbound) : Attempt (Option CallableId) := do
  match ← repin out with
  | some (pin, callable) =>
    build t pin
    return some callable
  | none =>
    place t out
    return none

/-- Puts the values of cells on the host's frame, the first one first; the callables that have
an owner more are handed over. -/
def pushAll (t : Script.ThreadId) : List Outbound → Attempt (List CallableId)
  | [] => return []
  | out :: rest => do
    let first ← push t out
    return first.toList ++ (← pushAll t rest)

/-! ## From the runtime to the host -/

/-- The kind under which a script value is held by reference. -/
def anchorKind? : Script.Value → Option AnchorKind
  | .table _ => some .table
  | .userdata _ => some .userdata
  | .thread _ => some .thread
  | .light _ => some .lightUserdata
  | _ => none

/-- A cell for a script value; nil needs none. -/
def toCell (v : Script.Value) : Op (Option CellId) := do
  match v with
  | .nil => return none
  | .int i => return some (← store (.number (Script.intToFloat i)))
  | .float x => return some (← store (.number x))
  | .bool b => return some (← store (.boolean b))
  | .str s => return some (← store (.string s))
  | v =>
    match anchorKind? v with
    | some kind => return some (← store (.object (← anchor v) kind))
    | none =>
      let native := (← get).machine.isHostClosure v
      return some (← store (.function (← anchor v) native))

/-- Makes cells of the operands above the lowest `base` and takes them away. -/
def collect (t : Script.ThreadId) (base : Nat) : Op (List (Option CellId)) := do
  let vs ← withMachine fun m => m.takeOperands t base
  vs.mapM toCell

/-- Makes a cell of the operand on top and takes it away. -/
def takeCell (t : Script.ThreadId) : Op (Option CellId) := do
  let v ← withMachine fun m =>
    let operands := m.operandsOf t
    (operands.headD .nil, m.setOperands t (operands.drop 1))
  toCell v

/-- The reference that takes a cell over. -/
def refTo (s : Session) (id : CellId) : Ref :=
  match s.cell? id with
  | some (.function _ native) => ⟨s.id, id, .function, native⟩
  | some (.object _ kind) => ⟨s.id, id, kind, false⟩
  | _ => ⟨s.id, id, .function, false⟩

/-- Makes a host value of a cell.  A reference takes the cell over; any other cell is released,
whether its value can be had or not. -/
def unpack : Option CellId → Attempt Value
  | none => return .nil
  | some id => do
    let s ← get
    match s.cell? id with
    | none => return .nil
    | some (.number x) => do
      free id
      return .number x
    | some (.boolean b) => do
      free id
      return .boolean b
    | some (.string bytes) => do
      free id
      match Utf8.decode bytes with
      | .ok text => return .string text
      | .error fault => throw (.unsupportedType (.notText fault))
    | some (.function _ false) => return .function (s.refTo id)
    | some _ => return .reference (s.refTo id)

/-- Releases the cells of references that were just made. -/
def forget : List Value → Op Unit
  | [] => return ()
  | v :: rest => do
    match v.ref? with
    | some ref => free ref.cell
    | none => pure ()
    forget rest

/-- Releases cells. -/
def freeAll : List (Option CellId) → Op Unit
  | [] => return ()
  | none :: rest => freeAll rest
  | some id :: rest => do
    free id
    freeAll rest

/-- Makes host values of the cells from position `index` on; `done` are those before. -/
def unpackFrom : (index : Nat) → (done : List Value) → List (Option CellId) →
    Attempt (List Value)
  | _, done, [] => return done.reverse
  | index, done, c :: rest => do
    let v ← tryCatch (unpack c) fun failure => do
      forget done.reverse
      freeAll rest
      throw (failure.ofItem index)
    unpackFrom (index + 1) (v :: done) rest

/-- Makes host values of all cells, or of none; then all cells are released. -/
def unpackAll (cells : List (Option CellId)) : Attempt (List Value) := unpackFrom 0 [] cells

/-! ## Errors of scripts -/

/-- The text the host gets for an error value: that of a string or a number, NULs left out, and
a description of any other. -/
def errorText (v : Script.Value) : String :=
  match v.text? with
  | some s => String.ofList ((Utf8.lossy s).toList.filter (· ≠ '\x00'))
  | none => s!"(error object is a {v.kind.name} value)"

/-- The failure that a script error comes to; its text is an allocation for a moment. -/
def scriptFailure (v : Script.Value) : Op Failure := do
  touch
  return .scriptError (errorText v)

/-! ## The host's frame -/

/-- How many values are on the host's frame of the active thread. -/
def height (s : Session) : Nat :=
  match s.active with
  | some t => (s.machine.operandsOf t).length
  | none => 0

/-- Takes what is above the lowest `base` off the host's frame of a thread. -/
def dropAbove (t : Script.ThreadId) (base : Nat) : Op Unit := do
  let _ ← withMachine fun m => m.takeOperands t base

/-- Asks the runtime for room on a thread's stack. -/
def reserve (t : Script.ThreadId) (count : Nat) : Attempt Unit := do
  if !(← (withMachine fun m => m.reserve t count : Op Bool)) then
    throw (.runtime (.stackFull count))

end Session

end ScriptBridge

import ScriptBridge.Path
import ScriptBridge.Session

/-!
# ScriptBridge.Session.Globals

Globals by dotted path.  A path is walked through tables, without metamethods; all its segments
but the last must name tables.  An assignment can be asked to make the tables that are missing.

The walk is made on the host's frame.  What it leaves there goes away when it stops, and with the
global that is read or assigned.  No collection comes upon a walk, though a runtime may make one
whenever it is handed a text or asked for a table: what scripts can see of that, entries of weak
tables that are gone and finalizers that have run, they see after the walk.
-/

namespace ScriptBridge

/-- Walks from the table on top of the host's frame of a thread through the remaining segments of a
path; `done` are those walked.  The table that they lead to takes the place of the first one.  Where
the walk stops, what it has come to is left there. -/
def Path.climb (p : Path) (create : Bool) (t : Script.ThreadId) :
    (done remaining : List String) → Script.Machine → Except PathFault Unit × Script.Machine
  | _, [], m => (.ok (), m)
  | done, segment :: remaining, m =>
    let done := done ++ [segment]
    let key : Script.Value := .str segment.toUTF8
    let m := (m.pushOperand t key).getField t
    match m.operandsOf t with
    | .nil :: _ =>
      if create then
        let (next, m) := (m.dropOperand t).newTable .empty
        let m := ((m.pushOperand t (.table next)).pushOperand t key).pushOperand t (.table next)
        p.climb create t done remaining ((m.setField t 1).dropBelow t)
      else (.error (.undefined p.text (stem done)), m)
    | operands =>
      if (operands.head?.bind m.tableOf?).isSome then
        p.climb create t done remaining (m.dropBelow t)
      else (.error (.notTable p.text (stem done)), m)

namespace Session

/-- Walks to the table that holds the last segment of a path, and leaves it on the host's frame of a
thread; where the walk stops, all above the lowest `base` is dropped. -/
def walk (t : Script.ThreadId) (base : Nat) (p : Path) (create : Bool) : Attempt Unit := do
  let walked ← (withMachine fun m =>
    p.climb create t [] p.parents (m.pushOperand t (.table m.globals)) : Op (Except PathFault Unit))
  match walked with
  | .ok () => return ()
  | .error fault => do
    dropAbove t base
    throw (.invalidPath fault)

/-- The value of a global. -/
def lookUp (path : String) : Attempt Value := do
  let t ← thread
  let base := (← get).height
  let p ← MonadExcept.ofExcept (Path.parse path)
  reserve t 4
  walk t base p false
  modifyMachine fun m => (m.pushOperand t (.str p.last.toUTF8)).getField t
  let cell ← takeCell t
  dropAbove t base
  unpack cell

/-- Walks to the table of a path and leaves it on the host's frame, with the key, where the value is
to follow. -/
def beginAssignAt (t : Script.ThreadId) (p : Path) (create : Bool) : Attempt Unit := do
  let base := (← get).height
  reserve t 5
  walk t base p create
  modifyMachine fun m => m.pushOperand t (.str p.last.toUTF8)

/-- Begins to assign a global; the value is made ready. -/
def beginAssign (path : String) (v : Value) (create : Bool) :
    Attempt (Script.ThreadId × Outbound) := do
  let t ← thread
  let p ← MonadExcept.ofExcept (Path.parse path)
  let out ← pack v
  tryCatch (beginAssignAt t p create) fun failure => do
    abandon [out]
    throw failure
  return (t, out)

/-- Takes the value and the key off the host's frame, and assigns. -/
def finishAssign (t : Script.ThreadId) : Op Unit := modifyMachine fun m => m.setField t 0

/-- Holds the value of a reference through a second cell. -/
def reanchor (ref : Ref) : Attempt Ref := do
  let t ← thread
  reserve t 1
  let _ ← push t (.lent ref.cell)
  match ← takeCell t with
  | some cell => return (← get).refTo cell
  | none => throw (.runtime (.stated "reference no longer resolves"))

end Session

end ScriptBridge

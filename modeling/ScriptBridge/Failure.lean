import ScriptBridge.Binary64.Decimal
import ScriptBridge.Handle
import ScriptBridge.Utf8

/-!
# ScriptBridge.Failure

What can go wrong at the boundary.  Each failure is its cause; `Failure.message` is the one
place that words it.
-/

namespace ScriptBridge

/-- The number of a session, counted from one. -/
abbrev SessionId := Nat

/-- Why a value has no representation on the other side. -/
inductive Unsupported where
  | notInteger (x : Binary64)
  | notText (fault : Utf8.Fault)
  | stated (text : String)
  deriving DecidableEq, Repr

def Unsupported.message : Unsupported → String
  | .notInteger x => s!"number {x.positional} has no integer representation"
  | .notText fault => s!"string is not valid UTF-8 ({fault.message})"
  | .stated text => text

/-- Why a dotted path leads nowhere. -/
inductive PathFault where
  /-- A segment is empty. -/
  | malformed (path : String)
  /-- A segment before the last holds nothing. -/
  | undefined (path stem : String)
  /-- A segment before the last holds something other than a table. -/
  | notTable (path stem : String)
  deriving DecidableEq, Repr

def PathFault.message : PathFault → String
  | .malformed path => path
  | .undefined path stem => s!"{path} ({stem} is not defined)"
  | .notTable path stem => s!"{path} ({stem} is not a table)"

/-- Why the script runtime refused an operation. -/
inductive Refusal where
  /-- The stack cannot hold so many more values. -/
  | stackFull (count : Nat)
  /-- A call has more arguments than the runtime can count. -/
  | tooManyArguments
  /-- The closure of a host callable no longer holds a handle. -/
  | lostHandle
  | stated (text : String)
  deriving DecidableEq, Repr

namespace Refusal

/-- The most values that the runtime can count. -/
def maxCount : Nat := 2147483647

def message : Refusal → String
  | .stackFull count => s!"runtime stack cannot hold {min count maxCount} more values"
  | .tooManyArguments => "too many arguments"
  | .lostHandle => "host function closure lost its handle"
  | .stated text => text

end Refusal

/-- The failures of boundary operations. -/
inductive Failure where
  | unsupportedType (cause : Unsupported)
  | typeMismatch (expected found : String)
  /-- A reference was handed to a session other than its own. -/
  | wrongSession (expected found : SessionId)
  | notCallable (handle : Handle)
  /-- The script raised an error; its text is kept as it is. -/
  | scriptError (text : String)
  /-- The transfer of a list stopped at an element. -/
  | marshalFailure (index : Nat) (source : Failure)
  | invalidPath (fault : PathFault)
  | sessionClosed
  | runtime (cause : Refusal)
  /-- A host callable panicked. -/
  | panicked (text : String)
  /-- A host callable failed; its text is kept as it is. -/
  | host (text : String)
  deriving DecidableEq, Repr

namespace Failure

instance : Inhabited Failure := ⟨.sessionClosed⟩

/-- The text shown for a failure. -/
def message : Failure → String
  | .unsupportedType cause => "Unsupported type: " ++ cause.message
  | .typeMismatch expected found => s!"Type mismatch: expected {expected}, got {found}"
  | .wrongSession expected found =>
    s!"Local reference belongs to session {found}, not session {expected}"
  | .notCallable handle => s!"Handle {handle.text} does not resolve to a callable"
  | .scriptError text => text
  | .marshalFailure index source => s!"Failed to marshal value {index}: " ++ source.message
  | .invalidPath fault => "Invalid global path: " ++ fault.message
  | .sessionClosed => "Session is closed"
  | .runtime cause => "Runtime error: " ++ cause.message
  | .panicked text => "Host function panicked: " ++ text
  | .host text => text

/-- The innermost failure, under nested list transfers. -/
def root : Failure → Failure
  | .marshalFailure _ source => source.root
  | failure => failure

/-- The failure that this one reports about, if it is about an element of a list. -/
def source? : Failure → Option Failure
  | .marshalFailure _ source => some source
  | _ => none

/-- The failure of a list transfer whose element `index` failed. -/
def ofItem (index : Nat) (f : Failure) : Failure := .marshalFailure index f

@[simp] theorem root_ofItem (index : Nat) (f : Failure) : (f.ofItem index).root = f.root := rfl

/-- Looking for the innermost failure twice finds the same one. -/
@[simp] theorem root_root (f : Failure) : f.root.root = f.root := by
  induction f with
  | marshalFailure _ _ ih => exact ih
  | _ => rfl

end Failure

end ScriptBridge

import ScriptBridge.Cell
import ScriptBridge.Failure

/-!
# ScriptBridge.Value

The values host code works with.  Numbers of every width are doubles here; what the script
runtime owns is held by reference; and a host callable is a value like any other.

`Value.toInt?` and its siblings extract a value of a known type.  Extraction of an integer is
exact: it succeeds only on a double that denotes an integer of sixty-four bits.
-/

namespace ScriptBridge

/-- The number of a boundary cell within its session. -/
abbrev CellId := Nat

/-- The number of a host callable. -/
abbrev CallableId := Nat

/-- A script value held by the host, through a cell of its session. -/
structure Ref where
  session : SessionId
  cell : CellId
  kind : AnchorKind
  /-- Whether it refers to a host callable that came back from the runtime. -/
  native : Bool
  deriving DecidableEq, Repr, Inhabited

/-- A value on the host side. -/
inductive Value where
  | nil
  | number (x : Binary64)
  | boolean (b : Bool)
  | string (text : String)
  /-- A value of the script runtime. -/
  | reference (ref : Ref)
  /-- A function of the script runtime that the host can call. -/
  | function (ref : Ref)
  /-- A host callable. -/
  | callable (id : CallableId)
  deriving DecidableEq, Repr, Inhabited

namespace Value

open scoped CoreInstances

/-- The double nearest to an integer of any width. -/
def ofInt (i : Int) : Value := .number (.ofInt i)

/-- Nil for an absent value. -/
def ofOption : Option Value → Value
  | some v => v
  | none => .nil

/-- The name of a value's type, for messages. -/
def typeName : Value → String
  | .nil => "nil"
  | .number _ => "number"
  | .boolean _ => "boolean"
  | .string _ => "string"
  | .reference ref => ref.kind.name
  | .function _ => "function"
  | .callable _ => "host function"

def isNil : Value → Bool
  | .nil => true
  | _ => false

def number? : Value → Option Binary64
  | .number x => some x
  | _ => none

def boolean? : Value → Option Bool
  | .boolean b => some b
  | _ => none

def string? : Value → Option String
  | .string text => some text
  | _ => none

/-- The reference under a value held by reference. -/
def ref? : Value → Option Ref
  | .reference ref => some ref
  | .function ref => some ref
  | _ => none

/-- The reference under a function. -/
def function? : Value → Option Ref
  | .function ref => some ref
  | _ => none

/-- Whether two references are the same cell. -/
def sharesCell (a b : Ref) : Bool := a.session == b.session && a.cell == b.cell

/-- Equality of values: numbers compare as numbers, references by their cell. -/
def equal : Value → Value → Bool
  | .nil, .nil => true
  | .number a, .number b => a.equal b
  | .boolean a, .boolean b => a == b
  | .string a, .string b => a == b
  | .reference a, .reference b => sharesCell a b
  | .function a, .function b => sharesCell a b
  | .callable a, .callable b => a == b
  | _, _ => false

/-! ## Typed extraction -/

/-- The failure of extracting one type from a value of another. -/
def mismatch (expected : String) (v : Value) : Failure := .typeMismatch expected v.typeName

def toNumber : Value → Except Failure Binary64
  | .number x => .ok x
  | v => .error (v.mismatch "number")

/-- Whether a double denotes an integer of sixty-four bits: it has no fraction, and lies between the
doubles of the least and of the greatest of them, of which the latter is none any more. -/
def isInt64 (x : Binary64) : Bool :=
  x.isWhole && (Binary64.ofInt (-2 ^ 63)).lessEq x && x.less (.ofInt (2 ^ 63 - 1))

/-- The integer of sixty-four bits that a double denotes exactly. -/
def int64? (x : Binary64) : Option Int := if isInt64 x then some x.toInt64 else none

def toInt : Value → Except Failure Int
  | .number x =>
    match int64? x with
    | some i => .ok i
    | none => .error (.unsupportedType (.notInteger x))
  | v => .error (v.mismatch "number")

def toBool : Value → Except Failure Bool
  | .boolean b => .ok b
  | v => .error (v.mismatch "boolean")

def toText : Value → Except Failure String
  | .string text => .ok text
  | v => .error (v.mismatch "string")

/-- A function is accepted as a plain reference. -/
def toRef : Value → Except Failure Ref
  | .reference ref => .ok ref
  | .function ref => .ok ref
  | v => .error (v.mismatch "reference")

def toFunction : Value → Except Failure Ref
  | .function ref => .ok ref
  | v => .error (v.mismatch "function")

end Value

end ScriptBridge

import ScriptBridge.Anchor
import ScriptBridge.Binary64.Decimal
import ScriptBridge.Handle

/-!
# ScriptBridge.Cell

A cell is a value on its way across the boundary.  Numbers, booleans and strings travel as
copies; a host callable travels as the handle it is pinned under; everything else travels as
an anchor, a slot of the script runtime that keeps the value alive.

`Cell.weight` is the number of allocations a cell stands for, and `CellWords` the fixed-width
layout of a cell: a tag, a 64-bit payload, an auxiliary word and a flag.
-/

namespace ScriptBridge

open scoped CoreInstances

/-- The kinds of script values that are held by reference. -/
inductive AnchorKind where
  | function
  | table
  | userdata
  | thread
  | lightUserdata
  deriving DecidableEq, Repr, Inhabited

namespace AnchorKind

/-- The name used in messages. -/
def name : AnchorKind → String
  | .function => "function"
  | .table => "table"
  | .userdata => "userdata"
  | .thread => "thread"
  | .lightUserdata => "lightuserdata"

/-- The name of the alternative itself. -/
def label : AnchorKind → String
  | .function => "Function"
  | .table => "Table"
  | .userdata => "Userdata"
  | .thread => "Thread"
  | .lightUserdata => "LightUserdata"

def code : AnchorKind → Nat
  | .function => 0
  | .table => 1
  | .userdata => 2
  | .thread => 3
  | .lightUserdata => 4

/-- The kind of a code; a code that names none counts as a function. -/
def ofCode : Nat → AnchorKind
  | 1 => .table
  | 2 => .userdata
  | 3 => .thread
  | 4 => .lightUserdata
  | _ => .function

@[simp] theorem ofCode_code (k : AnchorKind) : ofCode k.code = k := by cases k <;> rfl

end AnchorKind

/-- A value crossing the boundary; nil crosses without a cell. -/
inductive Cell where
  | number (x : Binary64)
  | boolean (b : Bool)
  | string (bytes : ByteArray)
  /-- A host callable on its way out, pinned under a handle. -/
  | pinned (handle : Handle)
  /-- A function of the runtime; `native` when it is the closure of a host callable. -/
  | function (anchor : Anchor) (native : Bool)
  /-- Any other value of the runtime. -/
  | object (anchor : Anchor) (kind : AnchorKind)
  deriving DecidableEq

namespace Cell

instance : Inhabited Cell := ⟨.boolean false⟩

/-- How many allocations the cell stands for: itself, and the bytes of a string. -/
def weight : Cell → Nat
  | .string _ => 2
  | _ => 1

/-- The anchor a cell owns, if it is one of a reference. -/
def anchor? : Cell → Option Anchor
  | .function anchor _ => some anchor
  | .object anchor _ => some anchor
  | _ => none

/-- The handle a cell owns, if it is one of a host callable on its way out. -/
def handle? : Cell → Option Handle
  | .pinned handle => some handle
  | _ => none

end Cell

/-! ## Layout -/

/-- The tag of a laid-out cell. -/
inductive WordTag where
  | nil
  | number
  | boolean
  | string
  | function
  | object
  deriving DecidableEq, Repr

namespace WordTag

def name : WordTag → String
  | .nil => "Nil"
  | .number => "Number"
  | .boolean => "Boolean"
  | .string => "String"
  | .function => "Function"
  | .object => "Opaque"

def code : WordTag → Nat
  | .nil => 0
  | .number => 1
  | .boolean => 2
  | .string => 3
  | .function => 4
  | .object => 5

/-- The tag of that name. -/
def ofName? (text : String) : Option WordTag :=
  [nil, number, boolean, string, function, object].find? fun t => t.name == text

end WordTag

/-- A cell laid out in words. -/
structure CellWords where
  tag : WordTag
  /-- A number's word, a truth value, a handle, or an anchor in the low half. -/
  payload : UInt64
  /-- A string's length, a reference's kind, or whether a function is a handle still. -/
  aux : UInt64
  native : Bool
  deriving DecidableEq, Repr

namespace CellWords

/-- The auxiliary word of a function cell that still holds a handle. -/
def unresolved : UInt64 := 1

def isUnresolved (c : CellWords) : Bool := c.tag = .function && c.aux = unresolved

/-- The handle of a host callable that has not been delivered. -/
def handle? (c : CellWords) : Option Handle :=
  if c.isUnresolved then Handle.ofNat? c.payload.toNat else none

/-- The low half of the payload, as a signed number. -/
def anchorNumber (c : CellWords) : Int := c.payload.toUInt32.toInt32.toInt

/-- The anchor of a value held by the runtime. -/
def anchor? (c : CellWords) : Option Int :=
  match c.tag with
  | .function => if c.isUnresolved then none else some c.anchorNumber
  | .object => some c.anchorNumber
  | _ => none

/-- The kind of value a reference cell refers to. -/
def kind? (c : CellWords) : Option AnchorKind :=
  match c.tag with
  | .function => some .function
  | .object => some (.ofCode c.aux.toNat)
  | _ => none

/-- The text shown for a cell. -/
def text (c : CellWords) : String :=
  match c.tag with
  | .nil => "Cell::Nil"
  | .number => s!"Cell::Number({(Binary64.mk c.payload).positional})"
  | .boolean => s!"Cell::Boolean({if c.payload = 0 then false else true})"
  | .string => s!"Cell::String(len={c.aux.toNat})"
  | .function =>
    match c.handle? with
    | some handle => s!"Cell::Function(handle={handle.text})"
    | none => s!"Cell::Function(ref={c.anchorNumber}, native={c.native})"
  | .object => s!"Cell::Opaque({(AnchorKind.ofCode c.aux.toNat).name}, ref={c.anchorNumber})"

end CellWords

end ScriptBridge

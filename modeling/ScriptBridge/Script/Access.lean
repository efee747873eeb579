import ScriptBridge.Script.Arithmetic
import ScriptBridge.Script.Report

/-!
# ScriptBridge.Script.Access

Reading and writing fields with metamethods, comparing, and finding the metamethod of an
operator.  Nothing here calls a function: an answer may name the function to be called.
-/

namespace ScriptBridge.Script

/-- What reading or writing a field comes to. -/
inductive Access where
  /-- The value that was read. -/
  | found (v : Value)
  /-- The table that is to be written to, without metamethods. -/
  | raw (id : TableId)
  /-- A metamethod is to be called with this object. -/
  | method (f object : Value)
  /-- The object has no fields; whether it is the one the script named. -/
  | foreign (object : Value) (named : Bool)
  /-- Metamethods lead to ever more objects. -/
  | endless

namespace Machine

/-- How many objects in a row a field is looked for in. -/
def chainLimit : Nat := 2000

/-- Looks for a field of an object, then of what its metamethods lead to. -/
def readFrom (m : Machine) (key : Value) : (fuel : Nat) → (named : Bool) → Value → Access
  | 0, _, object =>
    match object with
    | .table id =>
      match m.rawGet id key with
      | .nil => .endless
      | v => .found v
    | _ => .endless
  | fuel + 1, named, object =>
    match object with
    | .table id =>
      let t := m.table id
      match t.get key with
      | .nil =>
        match t.metatable with
        | none => .found .nil
        | some meta' =>
          match (m.table meta').getText "__index" with
          | .nil => .found .nil
          | f => if f.kind = .function then .method f object else readFrom m key fuel false f
      | v => .found v
    | object =>
      match m.metafield object "__index" with
      | .nil => .foreign object named
      | f => if f.kind = .function then .method f object else readFrom m key fuel false f

/-- The field of an object. -/
def read (m : Machine) (object key : Value) : Access := m.readFrom key chainLimit true object

/-- Looks for where a field of an object is to be written. -/
def writeFrom (m : Machine) (key : Value) : (fuel : Nat) → (named : Bool) → Value → Access
  | 0, _, object =>
    match object with
    | .table id => if (m.rawGet id key).isNil then .endless else .raw id
    | _ => .endless
  | fuel + 1, named, object =>
    match object with
    | .table id =>
      let t := m.table id
      match t.metatable with
      | none => .raw id
      | some meta' =>
        match t.get key with
        | .nil =>
          match (m.table meta').getText "__newindex" with
          | .nil => .raw id
          | f => if f.kind = .function then .method f object else writeFrom m key fuel false f
        | _ => .raw id
    | object =>
      match m.metafield object "__newindex" with
      | .nil => .foreign object named
      | f => if f.kind = .function then .method f object else writeFrom m key fuel false f

/-- Where a field of an object is to be written. -/
def write (m : Machine) (object key : Value) : Access := m.writeFrom key chainLimit true object

/-- Why nothing can be put under a key in a table. -/
def keyFault? : Value → Option String
  | .nil => some "table index is nil"
  | .float x => if x.isNaN then some "table index is NaN" else none
  | _ => none

/-! ## Operators -/

/-- The metamethod of an operator on two values: that of the first, or else of the second. -/
def operatorMethod (m : Machine) (event : String) (a b : Value) : Value :=
  match m.metafield a event with
  | .nil => m.metafield b event
  | f => f

/-- Whether equality of two values that are not the same is a matter for a metamethod. -/
def equalityMethod (m : Machine) (a b : Value) : Value :=
  match a, b with
  | .table _, .table _ => m.operatorMethod "__eq" a b
  | .userdata _, .userdata _ => m.operatorMethod "__eq" a b
  | _, _ => .nil

/-- The length of a string, or of a table without a metamethod for it. -/
def length? (m : Machine) (v : Value) : Option Nat :=
  match v with
  | .str s => some s.size
  | .table id => if (m.metafield v "__len").isNil then some (m.table id).border else none
  | _ => none

/-! ## Messages -/

/-- Why an operator has no meaning for two values: the one that is not a number is named. -/
def operandFault (m : Machine) (op : BinaryOp) (a b : Value) (nameA nameB : Bytes) : Bytes :=
  let isNumber (v : Value) : Bool := v.kind = .number
  if Arithmetic.isBitwise op && isNumber a && isNumber b then
    let name := if (Arithmetic.whole? a).isSome then nameB else nameA
    bytes "number" ++ name ++ bytes " has no integer representation"
  else
    let (culprit, name) := if isNumber a then (b, nameB) else (a, nameA)
    let what := if Arithmetic.isBitwise op then "bitwise operation" else "arithmetic"
    bytes s!"attempt to perform {what} on a " ++ m.typeName culprit ++ bytes " value" ++ name

/-- Why two values have no order. -/
def orderFault (m : Machine) (a b : Value) : Bytes :=
  let x := m.typeName a
  let y := m.typeName b
  if x == y then bytes "attempt to compare two " ++ x ++ bytes " values"
  else bytes "attempt to compare " ++ x ++ bytes " with " ++ y

end Machine

end ScriptBridge.Script

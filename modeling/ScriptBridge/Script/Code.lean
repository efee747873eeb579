import ScriptBridge.Script.Syntax

/-!
# ScriptBridge.Script.Code

What scripts are compiled to: instructions for a machine with an operand stack and numbered
places for the local variables of a function.  An instruction that can fail carries what its
operands are called in the script, for the error message.
-/

namespace ScriptBridge.Script

open scoped CoreInstances

/-- Where a value comes from, as error messages tell it. -/
inductive Origin where
  | unknown
  | slot (name : Bytes)
  | upvalue (name : Bytes)
  | global (name : Bytes)
  | field (name : Bytes)
  | method (name : Bytes)
  | constant (name : Bytes)
  | metamethod (name : Bytes)
  | forIterator
  deriving DecidableEq

namespace Origin

instance : Inhabited Origin := ⟨.unknown⟩

/-- The kind of origin and the name, if the value has one. -/
def named? : Origin → Option (String × Bytes)
  | .unknown => none
  | .slot n => some ("local", n)
  | .upvalue n => some ("upvalue", n)
  | .global n => some ("global", n)
  | .field n => some ("field", n)
  | .method n => some ("method", n)
  | .constant n => some ("constant", n)
  | .metamethod n => some ("metamethod", n)
  | .forIterator => some ("for iterator", bytes "for iterator")

/-- The origin in parentheses, as it ends an error message. -/
def note (o : Origin) : Bytes :=
  match o.named? with
  | some (kind, name) => bytes s!" ({kind} '" ++ name ++ bytes "')"
  | none => ∅

end Origin

/-- How many results a call or `...` is to leave. -/
inductive Want where
  | exactly (n : Nat)
  /-- All of them, spread into the next instruction. -/
  | all
  deriving DecidableEq, Inhabited

/-- An instruction.  "Spread" means that the results left by the instruction before follow the
operands. -/
inductive Instr where
  | push (v : Value)
  | pop (n : Nat)
  | slot (i : Nat)
  | setSlot (i : Nat)
  /-- Variables that inner functions refer to live in boxes. -/
  | boxed (i : Nat)
  | setBoxed (i : Nat)
  | newBox (i : Nat)
  | upval (i : Nat)
  | setUpval (i : Nat)
  | index (object : Origin)
  | field (key : Bytes) (object : Origin)
  /-- Leaves a method and the object it was found in. -/
  | method (key : Bytes) (object : Origin)
  /-- Assigns to the object and key that lie `depth` operands down. -/
  | store (depth : Nat) (object : Origin)
  | newTable
  /-- Puts a key and a value into the table below them. -/
  | setItem
  /-- Puts operands into the table below them, from a position on. -/
  | append (start count : Nat) (spread : Bool)
  | binary (op : BinaryOp) (a b : Origin)
  | unary (op : UnaryOp) (a : Origin)
  | concat (n : Nat) (operands : List Origin)
  | compare (op : Comparison)
  | jump (target : Nat)
  | jumpUnless (target : Nat)
  /-- Jumps and keeps the operand if it does not hold, else drops it. -/
  | andJump (target : Nat)
  /-- Jumps and keeps the operand if it holds, else drops it. -/
  | orJump (target : Nat)
  | call (args : Nat) (spread : Bool) (want : Want) (callee : Origin)
  | tailCall (args : Nat) (spread : Bool) (callee : Origin)
  | leave (count : Nat) (spread : Bool)
  | vararg (want : Want)
  | closure (i : Nat)
  | forPrep (slot exit : Nat)
  | forLoop (slot body : Nat)
  | forTest (slot vars exit : Nat)
  /-- Notes that a variable is to be closed; it has this name. -/
  | markClose (slot : Nat) (name : Bytes)
  | closeFrom (slot : Nat)
  /-- Forgets the variables from a place on. -/
  | clear (slot : Nat)
  deriving DecidableEq, Inhabited

/-- A variable that a function captures when it is made. -/
structure Capture where
  name : Bytes
  /-- A box of the function that makes it, or else one that function captured. -/
  fromBox : Bool
  index : Nat
  deriving Inhabited

/-- A function's code. -/
inductive Proto where
  | mk (code : Array Instr) (lines : Array Nat) (protos : Array Proto) (captures : Array Capture)
      (params : Nat) (vararg : Bool) (slots size : Nat) (chunk : Bytes) (native : Bool)

namespace Proto

instance : Inhabited Proto := ⟨.mk #[] #[] #[] #[] 0 false 0 2 ∅ false⟩

def code : Proto → Array Instr | .mk code .. => code
/-- The line of each instruction. -/
def lines : Proto → Array Nat | .mk _ lines .. => lines
/-- The functions made inside. -/
def protos : Proto → Array Proto | .mk _ _ protos .. => protos
def captures : Proto → Array Capture | .mk _ _ _ captures .. => captures
def params : Proto → Nat | .mk _ _ _ _ params .. => params
def vararg : Proto → Bool | .mk _ _ _ _ _ vararg .. => vararg
/-- How many places its variables need. -/
def slots : Proto → Nat | .mk _ _ _ _ _ _ slots .. => slots
/-- How many stack slots it takes while it runs. -/
def size : Proto → Nat | .mk _ _ _ _ _ _ _ size .. => size
/-- The name of its script, as errors show it. -/
def chunk : Proto → Bytes | .mk _ _ _ _ _ _ _ _ chunk _ => chunk
/-- Whether it belongs to the library: errors do not show where in it they arise. -/
def native : Proto → Bool | .mk _ _ _ _ _ _ _ _ _ native => native

end Proto

end ScriptBridge.Script

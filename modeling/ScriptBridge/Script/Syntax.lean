import ScriptBridge.Script.Value

/-!
# ScriptBridge.Script.Syntax

Scripts as trees with every name resolved.  A local variable is the number of its declaration
within its function, an outer variable the number under which the function captures it, and a
global is a field of the variable `_ENV`.  Jumps are numbered; a function records which label
each of them leads to.
-/

namespace ScriptBridge.Script

/-- Arithmetic and bitwise operators on two operands. -/
inductive BinaryOp where
  | add | sub | mul | mod | pow | div | idiv | band | bor | bxor | shl | shr
  deriving DecidableEq, Repr

inductive UnaryOp where
  | neg | bnot | not | len
  deriving DecidableEq, Repr

inductive Comparison where
  | eq | ne | lt | le | gt | ge
  deriving DecidableEq, Repr

/-- What may be done with a local variable. -/
inductive Attrib where
  | regular
  | const
  /-- Closed when it goes out of scope. -/
  | close
  deriving DecidableEq, Repr, Inhabited

/-- A local variable of a function. -/
structure Decl where
  name : Bytes
  /-- Where it lives while it is in scope; variables of disjoint scopes share places. -/
  slot : Nat
  attrib : Attrib
  /-- Whether an inner function refers to it. -/
  captured : Bool
  deriving Inhabited

/-- A variable of an enclosing function that a function captures. -/
structure UpvalDecl where
  name : Bytes
  /-- A local of the directly enclosing function, or else one that it captures itself. -/
  fromLocal : Bool
  index : Nat
  readOnly : Bool
  deriving Inhabited

/-- Where a variable is found. -/
inductive Place where
  | slot (decl : Nat)
  | upval (index : Nat)
  deriving DecidableEq, Repr

mutual

inductive Expr where
  | constant (v : Value)
  /-- The extra arguments of the function. -/
  | vararg
  | variable (place : Place) (name : Bytes)
  | index (object key : Expr) (line : Nat)
  | call (f : Expr) (args : List Expr) (line : Nat)
  | method (object : Expr) (name : Bytes) (args : List Expr) (nameLine line : Nat)
  | function (f : Function)
  | table (items : List Item)
  | unary (op : UnaryOp) (e : Expr) (line : Nat)
  | binary (op : BinaryOp) (a b : Expr) (line : Nat)
  | compare (op : Comparison) (a b : Expr) (line : Nat)
  | concat (parts : List Expr) (line : Nat)
  | and (a b : Expr)
  | or (a b : Expr)
  /-- An expression in parentheses has one value. -/
  | paren (e : Expr)

inductive Item where
  | positional (e : Expr)
  | keyed (key value : Expr) (line : Nat)

inductive Stat where
  | locals (decls : List Nat) (values : List Expr) (line : Nat)
  | localFunction (decl : Nat) (f : Function)
  | assign (targets values : List Expr) (line : Nat)
  | call (e : Expr)
  | block (body : Block)
  | while (cond : Expr) (body : Block) (exit : Nat)
  | repeat (body : Block) (cond : Expr) (exit : Nat)
  | branch (clauses : List Clause) (otherwise : Option Block)
  | numericFor (hidden var : Nat) (start limit : Expr) (step : Option Expr) (body : Block)
      (exit line : Nat)
  | genericFor (hidden : Nat) (vars : List Nat) (values : List Expr) (body : Block)
      (exit line : Nat)
  | return (values : List Expr) (line : Nat)
  | label (id : Nat)
  | goto (id : Nat)

inductive Clause where
  | mk (cond : Expr) (body : Block)

/-- Statements in a scope of their own; `base` is the number of places in use around it. -/
inductive Block where
  | mk (base : Nat) (stats : List Stat)

inductive Function where
  | mk (params : List Nat) (vararg : Bool) (decls : Array Decl) (upvals : Array UpvalDecl)
      (body : Block) (targets : List (Nat × Nat)) (levels : List (Nat × Nat)) (line : Nat)

end

instance : Inhabited Expr := ⟨.vararg⟩
instance : Inhabited Function := ⟨.mk [] false #[] #[] (.mk 0 []) [] [] 0⟩

end ScriptBridge.Script

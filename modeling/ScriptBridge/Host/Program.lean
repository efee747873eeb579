import ScriptBridge.Settings
import ScriptBridge.Value

/-!
# ScriptBridge.Host.Program

Host programs: what code on the host side of the boundary does, as data.  A program is a list of
steps.  A step works on named sessions, on slots that hold values, and on host callables, whose
bodies are programs themselves.

A part of a program that makes no sense is kept as `malformed`; running it is a misuse.
-/

namespace ScriptBridge.Host

/-- A failure as programs write it down. -/
inductive FailureExpr where
  | plain (failure : Failure)
  /-- A failure about two sessions with numbers of their own. -/
  | wrongSession
  | marshal (index : Nat) (source : FailureExpr)
  | malformed
  deriving Inhabited

/-- What a value is extracted as. -/
inductive Extraction where
  | number | integer | boolean | text | reference | function | value
  /-- Nil for absence. -/
  | optional (of : Extraction)
  | malformed
  deriving DecidableEq, Inhabited, Repr

/-- A value that can be written down: references and callables cannot. -/
inductive Literal where
  | nil
  | number (x : Binary64)
  | boolean (b : Bool)
  | string (text : String)
  deriving DecidableEq, Inhabited, Repr

namespace Literal

/-- The double nearest to an integer of any width. -/
def ofInt (i : Int) : Literal := .number (.ofInt i)

/-- Nil for an absent value. -/
def ofOption : Option Literal → Literal
  | some c => c
  | none => .nil

def value : Literal → Value
  | .nil => .nil
  | .number x => .number x
  | .boolean b => .boolean b
  | .string text => .string text

end Literal

mutual

/-- How a value is made. -/
inductive ValueExpr where
  | constant (c : Literal)
  /-- Moves the value out of a slot. -/
  | take (slot : String)
  /-- A copy of the value in a slot; references get a cell of their own. -/
  | dup (slot : String)
  | callable (f : CallableExpr)
  /-- A callable that was defined under a name. -/
  | named (name : String)
  | malformed

/-- How a part of a list is made. -/
inductive ItemExpr where
  | one (v : ValueExpr)
  | nils (count : Nat)
  /-- The values in the argument slots from a position on, up to the first empty one. -/
  | splat (first : Nat)
  /-- Moves the value out of a slot and, after a call of a script function, back into it. -/
  | lend (slot : String)

/-- A host callable: its body, the list it returns, and the values it captures. -/
inductive CallableExpr where
  | mk (name : String) (body : List Step) (results : List ItemExpr)
      (captures : List (String × ValueExpr)) (watched quiet : Bool)
  | malformed

/-- What a step does. -/
inductive Action where
  | openSession (name : String) (options : Settings)
  | closeSession (name : String)
  | execute (name source : String)
  | lookUp (name path : String) (into : Option String)
  | lookUpFunction (name path : String) (into : Option String)
  | assign (name path : String) (v : ValueExpr) (create : Bool)
  | register (name path : String) (f : CallableExpr)
  | define (name : String) (f : CallableExpr)
  | undefine (name : String)
  | registerNamed (name path callable : String)
  | call (slot : String) (args : List ItemExpr) (into : List String) (count : Bool)
  | extract (v : ValueExpr) (as : Extraction) (into : Option String)
  | put (slot : String) (v : ValueExpr)
  | discard (slot : String)
  | release (slot : String)
  | clone (slot : String) (into : Option String)
  | toReference (slot : String) (into : Option String)
  | describe (slot : String)
  | compare (a b : String)
  | countPins (name : String)
  | status (name : String)
  | showMap
  | holdMap
  | freeMaps
  | fail (failure : FailureExpr)
  /-- Panics with a text, or with something that is none. -/
  | panic (text : Option String)
  | malformed

/-- A step: what it does, whether its result is reported, and whether the program goes on when
it fails. -/
inductive Step where
  | mk (action : Action) (quiet attempt : Bool)

end

instance : Inhabited ValueExpr := ⟨.malformed⟩
instance : Inhabited CallableExpr := ⟨.malformed⟩
instance : Inhabited ItemExpr := ⟨.nils 0⟩
instance : Inhabited Step := ⟨.mk .malformed false false⟩

namespace Step

def action : Step → Action | .mk action _ _ => action
def quiet : Step → Bool | .mk _ quiet _ => quiet
/-- Whether a failure of the step does not end the program. -/
def attempt : Step → Bool | .mk _ _ attempt => attempt

end Step

namespace CallableExpr

def name : CallableExpr → String | .mk name .. => name | .malformed => ""
def body : CallableExpr → List Step | .mk _ body .. => body | .malformed => []
def results : CallableExpr → List ItemExpr | .mk _ _ results .. => results | .malformed => []
def captures : CallableExpr → List (String × ValueExpr)
  | .mk _ _ _ captures .. => captures
  | .malformed => []
/-- Whether its end is reported. -/
def watched : CallableExpr → Bool | .mk _ _ _ _ watched _ => watched | .malformed => false
/-- Whether its calls are not reported. -/
def quiet : CallableExpr → Bool | .mk _ _ _ _ _ quiet => quiet | .malformed => false

end CallableExpr

/-! ## What is reported -/

/-- A value as reports show it. -/
inductive View where
  | nil
  | boolean (b : Bool)
  | text (s : String)
  | number (x : Binary64)
  | function (native : Bool) (session : SessionId)
  | reference (kind : AnchorKind) (native : Bool) (session : SessionId)
  | callable
  deriving DecidableEq, Inhabited

/-- What a value looks like in reports. -/
def View.ofValue : Value → View
  | .nil => .nil
  | .boolean b => .boolean b
  | .string s => .text s
  | .number x => .number x
  | .function ref => .function ref.native ref.session
  | .reference ref => .reference ref.kind ref.native ref.session
  | .callable _ => .callable

/-- A step that a program should not have taken. -/
inductive Misuse where
  | badInput | noSession | emptySlot | busy | notFunction | notReference | panic
  deriving DecidableEq, Inhabited, Repr

def Misuse.message : Misuse → String
  | .badInput => "bad input"
  | .noSession => "no session"
  | .emptySlot => "empty slot"
  | .busy => "busy"
  | .notFunction => "not a function"
  | .notReference => "not a reference"
  | .panic => "panic"

/-- Why a step failed. -/
inductive Mishap where
  | failure (f : Failure)
  | misuse (m : Misuse)
  deriving Inhabited

/-- The failure that a mishap in the body of a callable comes to. -/
def Mishap.toFailure : Mishap → Failure
  | .failure f => f
  | .misuse m => .host ("driver: " ++ m.message)

/-- What a value says about itself. -/
structure Description where
  typeName : String
  isNil : Bool
  number : Option Binary64
  boolean : Option Bool
  text : Option String
  ref : Option Ref
  isFunction : Bool
  deriving Inhabited

def Description.ofValue (v : Value) : Description where
  typeName := v.typeName
  isNil := v.isNil
  number := v.number?
  boolean := v.boolean?
  text := v.string?
  ref := v.ref?
  isFunction := v.function?.isSome

/-- What an extraction gave. -/
inductive Extracted where
  | view (v : View)
  | integer (i : Int)
  | absent
  deriving Inhabited

/-- The answer of a step that did not fail. -/
inductive Answer where
  | ok
  | view (v : View)
  | views (vs : List View)
  | count (n : Nat)
  | flag (b : Bool)
  | extracted (e : Extracted)
  | opened (id : SessionId) (label : String)
  | description (d : Description)
  | comparison (equal : Bool) (sharesCell : Option Bool)
  | status (id : SessionId) (label : String) (closed : Bool)
  /-- How many sessions the session map has, if there is a map. -/
  | map (size : Option Nat)
  deriving Inhabited

/-- Something worth a line in the report. -/
inductive Happening where
  | result (r : Except Mishap Answer)
  | entered (name : String) (args : List View)
  | dropped (name : String)
  | ended
  deriving Inhabited

/-- A happening, how many host callables were running, and the outstanding allocations of every
session; none for those that are being closed or are closed. -/
structure Event where
  what : Happening
  depth : Nat
  outstanding : List (Option Int)
  deriving Inhabited

end ScriptBridge.Host

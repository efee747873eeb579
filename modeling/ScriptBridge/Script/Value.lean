import ScriptBridge.Binary64.Decimal

/-!
# ScriptBridge.Script.Value

The values scripts compute with.  Strings are byte strings, integers have sixty-four bits and
wrap, and tables, functions, userdata and coroutines are identities: numbers under which the
heap keeps them.
-/

namespace ScriptBridge.Script

open scoped CoreInstances

/-- A byte string. -/
abbrev Bytes := ByteArray

/-- The bytes of a text. -/
abbrev bytes (s : String) : Bytes := s.toUTF8

abbrev TableId := Nat
abbrev ClosureId := Nat
abbrev NativeId := Nat
abbrev UserdataId := Nat
abbrev ThreadId := Nat
abbrev BoxId := Nat

/-- The library functions that scripts can run. -/
inductive Builtin where
  | assert | collectgarbage | error | getmetatable | next | pairs | pcall | rawequal | rawget
  | rawlen | rawset | select | setmetatable | tonumber | tostring | type | xpcall
  | coroutineCreate | coroutineIsyieldable | coroutineResume | coroutineRunning
  | coroutineStatus | coroutineWrap | coroutineYield
  | stringByte | stringChar | stringGmatch | stringLen | stringLower | stringRep
  | stringReverse | stringSlice | stringUpper
  | stringAdd | stringSub | stringMul | stringMod | stringPow | stringDiv | stringIdiv
  | stringUnm
  | mathAbs | mathFloor | mathTointeger | mathType
  | debugGetmetatable | debugGetupvalue | debugSetmetatable | debugSetupvalue
  | debugUpvalueid
  /-- The finalizer of the userdata that hold the handles of host callables. -/
  | releaseHandle
  /-- What library functions that are written as scripts need: checks of their arguments, errors,
  and values spread from a table. -/
  | argTable | argInteger | argText | argFunction | refuse | fail | wholeLength | itemText
  | roomFor | spread
  deriving DecidableEq, Repr, Inhabited

/-- A value of a script. -/
inductive Value where
  | nil
  | bool (b : Bool)
  | int (i : Int64)
  | float (x : Binary64)
  | str (s : Bytes)
  | table (id : TableId)
  /-- A function written in the script language. -/
  | closure (id : ClosureId)
  /-- A library function without state. -/
  | builtin (f : Builtin)
  /-- A library function that is there to be seen but has nothing to do here. -/
  | inert (name : String)
  /-- A function with values of its own that is not written in the script language. -/
  | native (id : NativeId)
  | userdata (id : UserdataId)
  | thread (id : ThreadId)
  /-- A bare address. -/
  | light (address : Nat)
  deriving DecidableEq

namespace Value

instance : Inhabited Value := ⟨.nil⟩

/-- Everything but nil and false holds. -/
def isTrue : Value → Bool
  | .nil => false
  | .bool b => b
  | _ => true

def isNil : Value → Bool
  | .nil => true
  | _ => false

/-- The types of values. -/
inductive Kind where
  | nil | boolean | lightUserdata | number | string | table | function | userdata | thread
  deriving DecidableEq, Repr

def kind : Value → Kind
  | .nil => .nil
  | .bool _ => .boolean
  | .int _ | .float _ => .number
  | .str _ => .string
  | .table _ => .table
  | .closure _ | .builtin _ | .inert _ | .native _ => .function
  | .userdata _ => .userdata
  | .thread _ => .thread
  | .light _ => .lightUserdata

/-- The name scripts know a type by. -/
def Kind.name : Kind → String
  | .nil => "nil"
  | .boolean => "boolean"
  | .number => "number"
  | .string => "string"
  | .table => "table"
  | .function => "function"
  | .userdata | .lightUserdata => "userdata"
  | .thread => "thread"

/-- Equality without metamethods: numbers compare by value across the two kinds of number. -/
def rawEqual : Value → Value → Bool
  | .int i, .float x => Binary64.compareInt? i.toInt x == some .eq
  | .float x, .int i => Binary64.compareInt? i.toInt x == some .eq
  | .float x, .float y => x.equal y
  | a, b => decide (a = b)

end Value

/-! ## Strings -/

/-- Bytes compared from `i` on, at most `fuel` of them. -/
def compareBytesFrom (a b : Bytes) : (fuel i : Nat) → Ordering
  | 0, _ => compare a.size b.size
  | fuel + 1, i =>
    match a[i]?, b[i]? with
    | some x, some y => if x = y then compareBytesFrom a b fuel (i + 1) else compare x y
    | none, some _ => .lt
    | some _, none => .gt
    | none, none => .eq

/-- Byte strings in dictionary order. -/
def compareBytes (a b : Bytes) : Ordering := compareBytesFrom a b (min a.size b.size) 0

/-! ## Numbers and text -/

/-- The text of an integer. -/
def intText (i : Int64) : Bytes := bytes (toString i.toInt)

/-- The text of a float: fourteen significant digits, and `.0` after one that would read as an
integer. -/
def floatText (x : Binary64) : Bytes :=
  let text := x.general 14
  if text.toList.all fun c => c.isDigit || c == '-' then bytes (text ++ ".0") else bytes text

/-- The text of a string or number; none for other values. -/
def Value.text? : Value → Option Bytes
  | .str s => some s
  | .int i => some (intText i)
  | .float x => some (floatText x)
  | _ => none

/-- The double nearest to an integer. -/
def intToFloat (i : Int64) : Binary64 := .ofInt i.toInt

/-- The integer a double denotes exactly, if it has sixty-four bits. -/
def floatToInt? (x : Binary64) : Option Int64 :=
  x.toInt?.bind fun i => if -2 ^ 63 ≤ i ∧ i < 2 ^ 63 then some (Int64.ofInt i) else none

end ScriptBridge.Script

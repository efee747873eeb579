import ScriptBridge.Script.Access
import ScriptBridge.Script.Pattern

/-!
# ScriptBridge.Script.Library

The library functions.  Each takes its arguments and comes to a `Reply`: values, or something
the machine has to do first, such as calling a function.  What is wrong with a call is a
`Fault`; how it is worded depends on the code that made the call and is decided by the machine.

Functions that go through tables with metamethods are written as scripts (`Prelude`); the last
section holds what those scripts need.
-/

namespace ScriptBridge.Script

/-- What a library function comes to. -/
inductive Reply where
  | values (vs : List Value)
  /-- Call a function, and do this with its results. -/
  | call (task : Task) (f : Value) (args : List Value)
  | resume (task : Task) (co : ThreadId) (args : List Value)
  | yield (args : List Value)
  | collect
  /-- Release the handle that a value holds. -/
  | release (target : Value)

/-- What is wrong with a call of a library function. -/
inductive Fault where
  /-- An argument, counted from one. -/
  | argument (index : Nat) (what : Bytes)
  /-- The same, of a function that goes by a fixed name. -/
  | argumentOf (name : Bytes) (index : Nat) (what : Bytes)
  /-- An error with this text, reported for the place of the call. -/
  | stated (what : Bytes)
  /-- An error value as it is. -/
  | bare (v : Value)

/-- A library function at work. -/
abbrev Act := ExceptT Fault (StateM Machine)

/-- Arguments of a library function. -/
abbrev Args := List Value

namespace Args

/-- The argument at a position, counted from one. -/
def at? (args : Args) (i : Nat) : Option Value := args[i - 1]?

/-- The argument at a position; nil where there is none. -/
def arg (args : Args) (i : Nat) : Value := (args.at? i).getD .nil

/-- The fault of an argument of a wrong type. -/
def wrongType (args : Args) (i : Nat) (expected : String) : Act Fault := do
  return .argument i (bytes s!"{expected} expected, got " ++ (← get).argumentTypeName (args.at? i))

/-- An argument of any type that must be there. -/
def any (args : Args) (i : Nat) : Act Value :=
  match args.at? i with
  | some v => return v
  | none => throw (.argument i (bytes "value expected"))

def table (args : Args) (i : Nat) : Act TableId := do
  match args.at? i with
  | some (.table id) => return id
  | _ => throw (← args.wrongType i "table")

def function (args : Args) (i : Nat) : Act Value := do
  match args.at? i with
  | some v =>
    if v.kind = .function then return v else throw (← args.wrongType i "function")
  | none => throw (← args.wrongType i "function")

def coroutine (args : Args) (i : Nat) : Act ThreadId := do
  match args.at? i with
  | some (.thread id) => return id
  | _ => throw (← args.wrongType i "coroutine")

/-- An argument that is a number, or a string that reads as one. -/
def number (args : Args) (i : Nat) : Act Value := do
  match (args.at? i).bind Value.number? with
  | some v => return v
  | none => throw (← args.wrongType i "number")

def integer (args : Args) (i : Nat) : Act Int64 := do
  match (← args.number i).integer? with
  | some n => return n
  | none => throw (.argument i (bytes "number has no integer representation"))

/-- An argument that may be missing or nil. -/
def optional {α : Type} (args : Args) (i : Nat) (read : Args → Nat → Act α) (fallback : α) : Act α :=
  match args.at? i with
  | none | some .nil => return fallback
  | some _ => read args i

/-- An argument that is a string, or a number with its text. -/
def text (args : Args) (i : Nat) : Act Bytes := do
  match (args.at? i).bind Value.text? with
  | some s => return s
  | none => throw (← args.wrongType i "string")

/-- A metatable or nil. -/
def metatable (args : Args) (i : Nat) : Act (Option TableId) := do
  match args.at? i with
  | some .nil => return none
  | some (.table id) => return some id
  | _ => throw (← args.wrongType i "nil or table")

end Args

namespace Machine

/-- The text of a value that no metamethod gives a text. -/
def plainText (m : Machine) (v : Value) : Bytes :=
  match v with
  | .nil => bytes "nil"
  | .bool b => bytes (if b then "true" else "false")
  | .int i => intText i
  | .float x => floatText x
  | .str s => s
  | v =>
    let kind := match m.metafield v "__name" with
      | .str s => s
      | _ => bytes v.kind.name
    let number := match v with
      | .table id | .closure id | .native id | .userdata id | .thread id | .light id => id
      | _ => 0
    kind ++ bytes s!": 0x{String.ofList (Nat.toDigits 16 (0x10000 + 64 * number))}"

/-- The metatable that scripts see: a field of it can hide it. -/
def visibleMetatable (m : Machine) (v : Value) : Value :=
  match m.metatable? v with
  | none => .nil
  | some id =>
    match (m.table id).getText "__metatable" with
    | .nil => .table id
    | v => v

/-- Whether a function may be left by yielding: not on the main thread, and not from within a
call that cannot be interrupted. -/
def isYieldable (m : Machine) (t : ThreadId) : Bool :=
  t != main && match m.framesOf t with
    | f :: _ => !f.info.fixed
    | [] => true

/-- The state of a coroutine, as scripts know it. -/
def statusText (m : Machine) (t : ThreadId) : String :=
  if t = m.current then "running"
  else
    match (m.thread t).status with
    | .fresh _ | .suspended => "suspended"
    | .active => "normal"
    | .dead => "dead"

/-- Whether a thread's stack can hold `n` more values.  If it cannot, the space for handling
overflows comes into use. -/
def reserve (m : Machine) (t : ThreadId) (n : Nat) : Bool × Machine :=
  let top := match m.framesOf t with
    | f :: _ => f.top
    | [] => 1
  if m.overflowed then (top + n < stackLimit + stackReserve, m)
  else if top + n ≤ stackLimit then (true, m)
  else (false, { m with overflowed := true })

end Machine

namespace Library

/-! ## Values and errors -/

/-- A text put behind the place of the function `level` calls up. -/
def placed (level : Int) (v : Value) : Act Value := do
  match v with
  | .str s => if 0 < level then return .str (placeAt level.toNat (← get).frames ++ s) else return v
  | v => return v

def assert (args : Args) : Act Reply := do
  if (args.arg 1).isTrue then return .values args
  else
    let _ ← args.any 1
    let message := (args.at? 2).getD (.str (bytes "assertion failed!"))
    throw (.bare (← placed 1 message))

def error (args : Args) : Act Reply := do
  let level ← args.optional 2 Args.integer 1
  throw (.bare (← placed level.toInt (args.arg 1)))

def type (args : Args) : Act Reply := do
  return .values [.str (bytes (← args.any 1).kind.name)]

def select (args : Args) : Act Reply := do
  let n : Int := args.length
  match args.arg 1 with
  | .str s =>
    if s[0]? == some 0x23 then return .values [.int (Int64.ofInt (n - 1))]
  | _ => pure ()
  let i := (← args.integer 1).toInt
  let i := if i < 0 then n + i else min i n
  if i < 1 then throw (.argument 1 (bytes "index out of range"))
  return .values (args.drop i.toNat)

def tostring (args : Args) : Act Reply := do
  let v ← args.any 1
  let m ← get
  match m.metafield v "__tostring" with
  | .nil => return .values [.str (m.plainText v)]
  | f => return .call .textResult f [v]

/-! ## Tables and metatables -/

def getmetatable (args : Args) : Act Reply := do
  let v ← args.any 1
  return .values [(← get).visibleMetatable v]

def setmetatable (args : Args) : Act Reply := do
  let id ← args.table 1
  let metatable ← args.metatable 2
  if !((← get).metafield (.table id) "__metatable").isNil then
    throw (.stated (bytes "cannot change a protected metatable"))
  modify fun m => m.setMetatable (.table id) metatable
  return .values [.table id]

def next (args : Args) : Act Reply := do
  let id ← args.table 1
  match ((← get).table id).next (args.arg 2) with
  | some (k, v) => return .values [k, v]
  | none => return .values [.nil]

def pairs (args : Args) : Act Reply := do
  let v ← args.any 1
  match (← get).metafield v "__pairs" with
  | .nil => return .values [.builtin .next, v, .nil]
  | f => return .call (.firstResults 3) f [v]

def rawequal (args : Args) : Act Reply := do
  let a ← args.any 1
  let b ← args.any 2
  return .values [.bool (a.rawEqual b)]

def rawlen (args : Args) : Act Reply := do
  match args.arg 1 with
  | .table id => return .values [.int (Int64.ofNat ((← get).table id).border)]
  | .str s => return .values [.int (Int64.ofNat s.size)]
  | _ => throw (← args.wrongType 1 "table or string")

def rawget (args : Args) : Act Reply := do
  let id ← args.table 1
  let k ← args.any 2
  return .values [(← get).rawGet id k]

def rawset (args : Args) : Act Reply := do
  let id ← args.table 1
  let k ← args.any 2
  let v ← args.any 3
  match Machine.keyFault? k with
  | some what => throw (.bare (.str (bytes what)))
  | none =>
    modify fun m => m.rawSet id k v
    return .values [.table id]

/-! ## Protected calls -/

def pcall (args : Args) : Act Reply := do
  let f ← args.any 1
  return .call (.guarded none) f (args.drop 1)

def xpcall (args : Args) : Act Reply := do
  let handler ← args.function 2
  return .call (.guarded (some handler)) (args.arg 1) (args.drop 2)

/-! ## Collections -/

/-- What scripts can ask the collector for.  Collections are made on request only. -/
def collectgarbage (args : Args) : Act Reply := do
  let option ← args.optional 1 Args.text (bytes "collect")
  let m ← get
  let isOption (s : String) : Bool := option == bytes s
  let known := ["stop", "restart", "collect", "count", "step", "setpause", "setstepmul",
    "isrunning", "generational", "incremental"]
  if !known.any isOption then
    throw (.argument 1 (bytes "invalid option '" ++ option ++ bytes "'"))
  else if m.collecting || m.closing then return .values [.nil]
  else if isOption "collect" then return .collect
  else if isOption "stop" then
    modify fun m => { m with stopped := true }
    return .values [.int 0]
  else if isOption "restart" then
    modify fun m => { m with stopped := false }
    return .values [.int 0]
  else if isOption "count" then return .values [.float (.ofNat 32)]
  else if isOption "step" then return .values [.bool true]
  else if isOption "isrunning" then return .values [.bool !m.stopped]
  else if isOption "setpause" then return .values [.int 200]
  else if isOption "setstepmul" then return .values [.int 100]
  else return .values [.str (bytes "incremental")]

/-! ## Coroutines -/

def coroutineCreate (args : Args) : Act Reply := do
  let f ← args.function 1
  return .values [.thread (← modifyGet fun m => m.newThread f)]

def coroutineWrap (args : Args) : Act Reply := do
  let f ← args.function 1
  let co ← modifyGet fun m => m.newThread f
  return .values [.native (← modifyGet fun m => m.newNative ⟨.wrap, #[.thread co]⟩)]

def coroutineResume (args : Args) : Act Reply := do
  let co ← args.coroutine 1
  return .resume (.resuming co) co (args.drop 1)

def coroutineStatus (args : Args) : Act Reply := do
  let co ← args.coroutine 1
  return .values [.str (bytes ((← get).statusText co))]

def coroutineIsyieldable (args : Args) : Act Reply := do
  let m ← get
  let co ← match args with
    | [] => pure m.current
    | args => args.coroutine 1
  return .values [.bool (m.isYieldable co)]

def coroutineRunning : Act Reply := do
  let current := (← get).current
  return .values [.thread current, .bool (current == Machine.main)]

/-! ## Strings -/

def stringLen (args : Args) : Act Reply := do
  return .values [.int (Int64.ofNat (← args.text 1).size)]

/-- A function that changes a string. -/
def stringMapped (change : List UInt8 → List UInt8) (args : Args) : Act Reply := do
  return .values [.str ⟨(change (← args.text 1).toList).toArray⟩]

/-- A letter without marks as a small letter; other bytes stay. -/
def lowerByte (b : UInt8) : UInt8 := if 0x41 ≤ b && b ≤ 0x5a then b + 0x20 else b

/-- A letter without marks as a capital; other bytes stay. -/
def upperByte (b : UInt8) : UInt8 := if 0x61 ≤ b && b ≤ 0x7a then b - 0x20 else b

/-- Where a part of a string begins, counted from one; a negative position counts from its end. -/
def firstPosition (i : Int) (size : Nat) : Nat :=
  if 0 < i then i.toNat else if i = 0 ∨ i < -size then 1 else (size + i + 1).toNat

/-- Where a part of a string ends; a negative position counts from its end. -/
def lastPosition (i : Int) (size : Nat) : Nat :=
  if size < i then size else if 0 ≤ i then i.toNat
  else if i < -size then 0 else (size + i + 1).toNat

def stringSlice (args : Args) : Act Reply := do
  let s ← args.text 1
  let first := firstPosition (← args.integer 2).toInt s.size
  let last := lastPosition (← args.optional 3 Args.integer (-1)).toInt s.size
  return .values [.str (s.extract (first - 1) last)]

def stringByte (args : Args) : Act Reply := do
  let s ← args.text 1
  let i ← args.optional 2 Args.integer 1
  let last := lastPosition (← args.optional 3 Args.integer i).toInt s.size
  let part := s.extract (firstPosition i.toInt s.size - 1) last
  if ← modifyGet fun m => m.reserve m.current part.size then
    return .values (part.toList.map fun b => .int (Int64.ofNat b.toNat))
  else throw (.stated (bytes "stack overflow (string slice too long)"))

/-- The bytes that `count` arguments from position `i` on stand for. -/
def charBytes (args : Args) : (count i : Nat) → Act (List UInt8)
  | 0, _ => return []
  | count + 1, i => do
    let c := (← args.integer i).toInt
    if c < 0 ∨ 255 < c then throw (.argument i (bytes "value out of range"))
    else return UInt8.ofNat c.toNat :: (← charBytes args count (i + 1))

def stringChar (args : Args) : Act Reply := do
  return .values [.str ⟨(← charBytes args args.length 1).toArray⟩]

/-- A string `n` times, with another between the copies. -/
def repeated (s separator : Bytes) (n : Nat) : Bytes :=
  match n with
  | 0 => ∅
  | n + 1 => (List.replicate n ()).foldl (fun acc _ => acc ++ separator ++ s) s

def stringRep (args : Args) : Act Reply := do
  let s ← args.text 1
  let n := (← args.integer 2).toInt
  let separator ← args.optional 3 Args.text ∅
  if n ≤ 0 then return .values [.str ∅]
  else if 0x7fffffff / n < s.size + separator.size then
    throw (.stated (bytes "resulting string too large"))
  else return .values [.str (repeated s separator n.toNat)]

def stringGmatch (args : Args) : Act Reply := do
  let s ← args.text 1
  let pattern ← args.text 2
  let start := (← args.optional 3 Args.integer 1).toInt
  let size : Int := s.size
  let first := if 0 < start then start else if start = 0 ∨ start < -size then 1 else size + start + 1
  let position := min (first - 1).toNat (s.size + 1)
  let id ← modifyGet fun m =>
    m.newNative ⟨.matches position none, #[.str s, .str pattern, .nil]⟩
  return .values [.native id]

/-- The next match of an iterator over matches; `id` is the iterator. -/
def nextMatch (id : NativeId) : Act Reply := do
  let m ← get
  let n := m.native id
  match n.kind, n.upvalues.getD 0 .nil, n.upvalues.getD 1 .nil with
  | .matches position lastEnd, .str s, .str pattern =>
    match Pattern.next ⟨s, pattern⟩ position lastEnd with
    | .error what => throw (.stated (bytes what))
    | .ok none => return .values [.nil]
    | .ok (some (vs, stop)) =>
      modify fun m => { m with
        natives := m.natives.setIfInBounds id (some { n with kind := .matches stop (some stop) }) }
      return .values vs
  | _, _, _ => return .values [.nil]

/-- An arithmetic operator on strings: they count as the numbers they read as. -/
def stringArithmetic (op : BinaryOp) (args : Args) : Act Reply := do
  let a := args.arg 1
  let b := args.arg 2
  match a.number?, b.number? with
  | some x, some y =>
    match Arithmetic.binary op x y with
    | .value v => return .values [v]
    | .failed what => throw (.bare (.str (bytes what)))
    | .foreign => return .values [.nil]
  | _, _ =>
    let m ← get
    let foreign : Value := match b with
      | .str _ => .nil
      | b => m.metafield b ("__" ++ op.event)
    match foreign with
    | .nil =>
      throw (.stated (bytes
        s!"attempt to {op.event} a '{a.kind.name}' with a '{b.kind.name}'"))
    | f => return .call (.firstResults 1) f [a, b]

def stringUnm (args : Args) : Act Reply := do
  match (args.arg 1).number? with
  | some (.int i) => return .values [.int (-i)]
  | some (.float x) => return .values [.float x.neg]
  | _ =>
    let kind := (args.arg 1).kind.name
    throw (.stated (bytes s!"attempt to unm a '{kind}' with a '{(args.arg 2).kind.name}'"))

/-! ## Numbers -/

/-- The integer that a string spells in a base, if nothing but blanks is around it. -/
def spelled? (base : Nat) (s : List UInt8) : Option Int64 :=
  let (negative, s) := match s.dropWhile isSpace with
    | 0x2d :: s => (true, s)
    | 0x2b :: s => (false, s)
    | s => (false, s)
  let digit? (b : UInt8) : Option Nat :=
    if isDigit b then some (b.toNat - 0x30)
    else if isNameStart b && b != 0x5f then some ((upperByte b).toNat - 0x37)
    else none
  let digits := (s.takeWhile fun b => (digit? b).isSome).filterMap digit?
  if digits.isEmpty || digits.any (base ≤ ·) || !(s.drop digits.length).all isSpace then none
  else
    let n := Int64.ofNat (digits.foldl (fun n d => n * base + d) 0)
    some (if negative then -n else n)

def tonumber (args : Args) : Act Reply := do
  match args.arg 2 with
  | .nil =>
    match args.arg 1 with
    | .str s => return .values [(Value.number? (.str s)).getD .nil]
    | .int i => return .values [.int i]
    | .float x => return .values [.float x]
    | _ =>
      let _ ← args.any 1
      return .values [.nil]
  | _ =>
    let base := (← args.integer 2).toInt
    match args.arg 1 with
    | .str s =>
      if base < 2 ∨ 36 < base then throw (.argument 2 (bytes "base out of range"))
      else return .values [((spelled? base.toNat s.toList).map Value.int).getD .nil]
    | _ => throw (← args.wrongType 1 "string")

def mathAbs (args : Args) : Act Reply := do
  match args.at? 1 with
  | some (.int i) => return .values [.int (if i < 0 then -i else i)]
  | _ =>
    match (← args.number 1).float? with
    | some x => return .values [.float ⟨x.bits &&& 0x7fffffffffffffff⟩]
    | none => return .values [.nil]

def mathFloor (args : Args) : Act Reply := do
  match args.at? 1 with
  | some (.int i) => return .values [.int i]
  | _ =>
    match (← args.number 1).float? with
    | some x =>
      let f := x.floor
      return .values [match floatToInt? f with
        | some i => .int i
        | none => .float f]
    | none => return .values [.nil]

def mathTointeger (args : Args) : Act Reply := do
  match (← args.any 1).integer? with
  | some i => return .values [.int i]
  | none => return .values [.nil]

def mathType (args : Args) : Act Reply := do
  match ← args.any 1 with
  | .int _ => return .values [.str (bytes "integer")]
  | .float _ => return .values [.str (bytes "float")]
  | _ => return .values [.nil]

/-! ## Looking into functions and metatables -/

def debugGetmetatable (args : Args) : Act Reply := do
  match (← get).metatable? (← args.any 1) with
  | some id => return .values [.table id]
  | none => return .values [.nil]

def debugSetmetatable (args : Args) : Act Reply := do
  let metatable ← args.metatable 2
  let v := args.arg 1
  modify fun m => m.setMetatable v metatable
  return .values [v]

/-- Where a value captured by a function is kept. -/
inductive Captured where
  | box (name : Bytes) (id : BoxId)
  | inNative (id : NativeId) (index : Nat)

/-- The value captured at a position, counted from one. -/
def captured? (m : Machine) (f : Value) (n : Int) : Option Captured :=
  if n < 1 then none
  else
    let i := n.toNat - 1
    match f with
    | .closure id =>
      let c := m.closure id
      if c.proto.native then none
      else
        match c.upvals[i]?, c.proto.captures[i]? with
        | some box, some capture => some (.box capture.name box)
        | _, _ => none
    | .native id => if i < (m.native id).upvalues.size then some (.inNative id i) else none
    | _ => none

def debugGetupvalue (args : Args) : Act Reply := do
  let n := (← args.integer 2).toInt
  let f ← args.function 1
  let m ← get
  match captured? m f n with
  | none => return .values []
  | some (.box name id) => return .values [.str name, m.box id]
  | some (.inNative id i) => return .values [.str ∅, (m.native id).upvalues.getD i .nil]

def debugSetupvalue (args : Args) : Act Reply := do
  let v ← args.any 3
  let n := (← args.integer 2).toInt
  let f ← args.function 1
  match captured? (← get) f n with
  | none => return .values []
  | some (.box name id) =>
    modify fun m => m.setBox id v
    return .values [.str name]
  | some (.inNative id i) =>
    modify fun m => { m with
      natives := m.natives.modify id
        (Option.map fun n => { n with upvalues := n.upvalues.setIfInBounds i v }) }
    return .values [.str ∅]

def debugUpvalueid (args : Args) : Act Reply := do
  let n := (← args.integer 2).toInt
  let f ← args.function 1
  match captured? (← get) f n with
  | none => return .values [.nil]
  | some (.box _ id) => return .values [.light (2 * id)]
  | some (.inNative id i) => return .values [.light (512 * id + 2 * i + 1)]

/-! ## For library functions written as scripts

The checks get the name of the function that was called, the position of the argument they are
about, and behind a parameter of their own all arguments of that function. -/

/-- Runs a check of an argument of a function of another name. -/
def onBehalfOf (name : Bytes) (check : Act Reply) : Act Reply :=
  tryCatch check fun
    | .argument i what => throw (.argumentOf name i what)
    | fault => throw fault

/-- What a check is asked: the name, the position, its own parameter, and the arguments. -/
def question (args : Args) : Bytes × Nat × Value × Args :=
  let name := ((args.at? 1).bind Value.text?).getD ∅
  let i := (((args.at? 2).bind Value.integer?).getD 1).toInt.toNat
  (name, i, args.arg 3, args.drop 3)

/-- A table, or a value that can be used like one. -/
def argTable (args : Args) : Act Reply :=
  let (name, i, writes, args) := question args
  onBehalfOf name do
    match args.at? i with
    | some (.table _) => return .values []
    | v =>
      let v := v.getD .nil
      let m ← get
      let has (event : String) : Bool := !(m.metafield v event).isNil
      if (m.metatable? v).isSome && has "__index" && (!writes.isTrue || has "__newindex")
          && has "__len" then return .values []
      else throw (← args.wrongType i "table")

def argInteger (args : Args) : Act Reply :=
  let (name, i, fallback, args) := question args
  onBehalfOf name do
    return .values [← args.optional i (fun args i => return .int (← args.integer i)) fallback]

def argText (args : Args) : Act Reply :=
  let (name, i, fallback, args) := question args
  onBehalfOf name do
    return .values [← args.optional i (fun args i => return .str (← args.text i)) fallback]

def argFunction (args : Args) : Act Reply :=
  let (name, i, _, args) := question args
  onBehalfOf name do
    return .values [← args.function i]

def refuse (args : Args) : Act Reply :=
  let (name, i, what, _) := question args
  throw (.argumentOf name i (what.text?.getD ∅))

def fail (args : Args) : Act Reply := throw (.stated ((args.arg 1).text?.getD ∅))

/-- A length as an integer. -/
def wholeLength (args : Args) : Act Reply :=
  match (args.arg 1).integer? with
  | some i => return .values [.int i]
  | none => throw (.stated (bytes "object length is not an integer"))

/-- The text of an element that is to be concatenated, given with its position. -/
def itemText (args : Args) : Act Reply :=
  match (args.arg 1).text?, args.arg 2 with
  | some s, _ => return .values [.str s]
  | none, .int i =>
    throw (.stated (bytes s!"invalid value (at index {i.toInt}) in table for 'concat'"))
  | none, _ => return .values []

/-- Whether the stack can hold as many results as there are positions between two. -/
def roomFor (args : Args) : Act Reply := do
  match args.arg 1, args.arg 2 with
  | .int i, .int j =>
    let n := j.toInt - i.toInt
    if 0x7fffffff ≤ n then return .values [.bool false]
    else return .values [.bool (← modifyGet fun m => m.reserve m.current (n + 1).toNat)]
  | _, _ => return .values [.bool false]

/-- The first values of a table. -/
def spread (args : Args) : Act Reply := do
  match args.arg 1, args.arg 2 with
  | .table id, .int n =>
    let t := (← get).table id
    return .values ((List.range n.toInt.toNat).map fun (i : Nat) => t.getInt (i + 1))
  | _, _ => return .values []

end Library

/-- What a library function does with its arguments. -/
def Builtin.act (f : Builtin) (args : Args) : Act Reply :=
  match f with
  | .assert => Library.assert args
  | .collectgarbage => Library.collectgarbage args
  | .error => Library.error args
  | .getmetatable => Library.getmetatable args
  | .next => Library.next args
  | .pairs => Library.pairs args
  | .pcall => Library.pcall args
  | .rawequal => Library.rawequal args
  | .rawget => Library.rawget args
  | .rawlen => Library.rawlen args
  | .rawset => Library.rawset args
  | .select => Library.select args
  | .setmetatable => Library.setmetatable args
  | .tonumber => Library.tonumber args
  | .tostring => Library.tostring args
  | .type => Library.type args
  | .xpcall => Library.xpcall args
  | .coroutineCreate => Library.coroutineCreate args
  | .coroutineIsyieldable => Library.coroutineIsyieldable args
  | .coroutineResume => Library.coroutineResume args
  | .coroutineRunning => Library.coroutineRunning
  | .coroutineStatus => Library.coroutineStatus args
  | .coroutineWrap => Library.coroutineWrap args
  | .coroutineYield => return .yield args
  | .stringByte => Library.stringByte args
  | .stringChar => Library.stringChar args
  | .stringGmatch => Library.stringGmatch args
  | .stringLen => Library.stringLen args
  | .stringLower => Library.stringMapped (·.map Library.lowerByte) args
  | .stringRep => Library.stringRep args
  | .stringReverse => Library.stringMapped List.reverse args
  | .stringSlice => Library.stringSlice args
  | .stringUpper => Library.stringMapped (·.map Library.upperByte) args
  | .stringAdd => Library.stringArithmetic .add args
  | .stringSub => Library.stringArithmetic .sub args
  | .stringMul => Library.stringArithmetic .mul args
  | .stringMod => Library.stringArithmetic .mod args
  | .stringPow => Library.stringArithmetic .pow args
  | .stringDiv => Library.stringArithmetic .div args
  | .stringIdiv => Library.stringArithmetic .idiv args
  | .stringUnm => Library.stringUnm args
  | .mathAbs => Library.mathAbs args
  | .mathFloor => Library.mathFloor args
  | .mathTointeger => Library.mathTointeger args
  | .mathType => Library.mathType args
  | .debugGetmetatable => Library.debugGetmetatable args
  | .debugGetupvalue => Library.debugGetupvalue args
  | .debugSetmetatable => Library.debugSetmetatable args
  | .debugSetupvalue => Library.debugSetupvalue args
  | .debugUpvalueid => Library.debugUpvalueid args
  | .releaseHandle => return .release (args.arg 1)
  | .argTable => Library.argTable args
  | .argInteger => Library.argInteger args
  | .argText => Library.argText args
  | .argFunction => Library.argFunction args
  | .refuse => Library.refuse args
  | .fail => Library.fail args
  | .wholeLength => Library.wholeLength args
  | .itemText => Library.itemText args
  | .roomFor => Library.roomFor args
  | .spread => Library.spread args

/-- The error value of a fault in a call of the function with that fallback name. -/
def Fault.value (m : Machine) (name : Bytes) : Fault → Value
  | .argument i what => .str (m.argumentError name i what)
  | .argumentOf name i what => .str (m.argumentError name i what)
  | .stated what => .str (m.libraryError what)
  | .bare v => v

end ScriptBridge.Script

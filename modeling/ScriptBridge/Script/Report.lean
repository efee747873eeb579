import ScriptBridge.Script.Machine
import ScriptBridge.Script.Token

/-!
# ScriptBridge.Script.Report

The texts of script errors: the name of a script as errors show it, the place an error is
reported for, and what the function that failed is called by the code that called it.
-/

namespace ScriptBridge.Script

/-- The name under which errors report a script.  A name after `=` is shown as it is and one
after `@` is a file's; any other is the script itself, of which the first line is shown.  No
name takes more than fifty-nine bytes. -/
def chunkLabel (name : Bytes) : Bytes :=
  let cs := name.toList
  match cs with
  | 0x3d :: rest => ⟨(rest.take 59).toArray⟩
  | 0x40 :: rest =>
    if rest.length ≤ 59 then ⟨rest.toArray⟩
    else bytes "..." ++ ⟨(rest.drop (rest.length - 56)).toArray⟩
  | cs =>
    let first := cs.takeWhile (· != 0x0a)
    let shown : Bytes :=
      if first.length = cs.length ∧ cs.length < 45 then ⟨cs.toArray⟩
      else ⟨(first.take 45).toArray⟩ ++ bytes "..."
    bytes "[string \"" ++ shown ++ bytes "\"]"

/-- The text of a syntax error. -/
def SyntaxError.text (e : SyntaxError) (label : Bytes) : Bytes :=
  let place := match e.line with
    | some n => label ++ bytes s!":{n}: "
    | none => ∅
  let near := match e.near with
    | some s => bytes " near " ++ s
    | none => ∅
  place ++ e.what ++ near

/-- The line a function is at. -/
def Activation.line (a : Activation) : Nat := a.proto.lines.getD (a.pc - 1) 0

/-- Where a frame is, as errors begin; only script code is anywhere. -/
def Frame.place : Frame → Bytes
  | .script _ a =>
    if a.proto.native then ∅ else a.proto.chunk ++ bytes s!":{a.line}: "
  | _ => ∅

def Frame.isMark : Frame → Bool
  | .mark .. => true
  | _ => false

/-- Whether a frame is code of a library function. -/
def Frame.isNativeScript : Frame → Bool
  | .script _ a => a.proto.native
  | _ => false

/-- The place of the function `level` calls up; the library function that is running now is
not among the frames unless it is written as a script. -/
def placeAt (level : Nat) (frames : List Frame) : Bytes :=
  match (frames.filter fun f => !f.isMark).drop (level - 1) with
  | f :: _ => f.place
  | [] => ∅

/-! ## Events -/

/-- The name of the event an operator causes, without the underscores. -/
def BinaryOp.event : BinaryOp → String
  | .add => "add" | .sub => "sub" | .mul => "mul" | .mod => "mod" | .pow => "pow"
  | .div => "div" | .idiv => "idiv" | .band => "band" | .bor => "bor" | .bxor => "bxor"
  | .shl => "shl" | .shr => "shr"

def UnaryOp.event : UnaryOp → String
  | .neg => "unm" | .bnot => "bnot" | .len => "len" | .not => "not"

def Comparison.event : Comparison → String
  | .eq | .ne => "eq"
  | .lt | .gt => "lt"
  | .le | .ge => "le"

/-- What the function called by an instruction is called there: by its name in a call, by the
event in an operation that called a metamethod. -/
def Instr.calleeOrigin : Instr → Origin
  | .call _ _ _ callee | .tailCall _ _ callee => callee
  | .index _ | .field .. | .method .. => .metamethod (bytes "index")
  | .store .. => .metamethod (bytes "newindex")
  | .binary op .. => .metamethod (bytes op.event)
  | .unary op _ => .metamethod (bytes op.event)
  | .concat .. => .metamethod (bytes "concat")
  | .compare op => .metamethod (bytes op.event)
  | .closeFrom _ | .leave .. => .metamethod (bytes "close")
  | _ => .unknown

/-- What the function called last by the top frame is called there. -/
def calleeOrigin : List Frame → Origin
  | .script _ a :: _ =>
    if a.proto.native then .unknown else (a.proto.code.getD (a.pc - 1) (.pop 0)).calleeOrigin
  | .mark _ .finalizer :: _ => .metamethod (bytes "__gc")
  | _ => .unknown

/-! ## Library functions by name -/

namespace Builtin

/-- The library a function belongs to (none for the globals) and its name there. -/
def path : Builtin → Option String × String
  | .assert => (none, "assert")
  | .collectgarbage => (none, "collectgarbage")
  | .error => (none, "error")
  | .getmetatable => (none, "getmetatable")
  | .next => (none, "next")
  | .pairs => (none, "pairs")
  | .pcall => (none, "pcall")
  | .rawequal => (none, "rawequal")
  | .rawget => (none, "rawget")
  | .rawlen => (none, "rawlen")
  | .rawset => (none, "rawset")
  | .select => (none, "select")
  | .setmetatable => (none, "setmetatable")
  | .tonumber => (none, "tonumber")
  | .tostring => (none, "tostring")
  | .type => (none, "type")
  | .xpcall => (none, "xpcall")
  | .coroutineCreate => (some "coroutine", "create")
  | .coroutineIsyieldable => (some "coroutine", "isyieldable")
  | .coroutineResume => (some "coroutine", "resume")
  | .coroutineRunning => (some "coroutine", "running")
  | .coroutineStatus => (some "coroutine", "status")
  | .coroutineWrap => (some "coroutine", "wrap")
  | .coroutineYield => (some "coroutine", "yield")
  | .stringByte => (some "string", "byte")
  | .stringChar => (some "string", "char")
  | .stringGmatch => (some "string", "gmatch")
  | .stringLen => (some "string", "len")
  | .stringLower => (some "string", "lower")
  | .stringRep => (some "string", "rep")
  | .stringReverse => (some "string", "reverse")
  | .stringSlice => (some "string", "sub")
  | .stringUpper => (some "string", "upper")
  | .mathAbs => (some "math", "abs")
  | .mathFloor => (some "math", "floor")
  | .mathTointeger => (some "math", "tointeger")
  | .mathType => (some "math", "type")
  | .debugGetmetatable => (some "debug", "getmetatable")
  | .debugGetupvalue => (some "debug", "getupvalue")
  | .debugSetmetatable => (some "debug", "setmetatable")
  | .debugSetupvalue => (some "debug", "setupvalue")
  | .debugUpvalueid => (some "debug", "upvalueid")
  | _ => (some "", "?")

/-- The name errors use where the calling code has none. -/
def qualified (f : Builtin) : Bytes :=
  match f.path with
  | (none, name) => bytes name
  | (some "", name) => bytes name
  | (some library, name) => bytes s!"{library}.{name}"

end Builtin

/-! ## Messages -/

namespace Machine

/-- The text of an error that an operation of the running function causes. -/
def operationError (m : Machine) (what : Bytes) : Bytes :=
  match m.frames with
  | f :: _ => f.place ++ what
  | [] => what

/-- The text of an error that a library function reports about the call of it. -/
def libraryError (m : Machine) (what : Bytes) : Bytes :=
  placeAt 1 (m.frames.dropWhile Frame.isNativeScript) ++ what

/-- The text of an error about an argument of a library function, called by its `fallback`
name where the calling code has no name for it. -/
def argumentError (m : Machine) (fallback : Bytes) (arg : Nat) (what : Bytes) : Bytes :=
  let origin := calleeOrigin (m.frames.dropWhile Frame.isNativeScript)
  let name := match origin.named? with
    | some (_, name) => name
    | none => fallback
  match origin, arg with
  | .method _, 1 => m.libraryError (bytes "calling '" ++ name ++ bytes "' on bad self (" ++ what ++ bytes ")")
  | .method _, n =>
    m.libraryError (bytes s!"bad argument #{n - 1} to '" ++ name ++ bytes "' (" ++ what ++ bytes ")")
  | _, n =>
    m.libraryError (bytes s!"bad argument #{n} to '" ++ name ++ bytes "' (" ++ what ++ bytes ")")

/-- The name of a value's type in messages; a metatable can give another. -/
def typeName (m : Machine) (v : Value) : Bytes :=
  match v with
  | .table _ | .userdata _ =>
    match m.metafield v "__name" with
    | .str s => s
    | _ => bytes v.kind.name
  | v => bytes v.kind.name

/-- The name of a value's type in messages about arguments. -/
def argumentTypeName (m : Machine) (v : Option Value) : Bytes :=
  match v with
  | none => bytes "no value"
  | some v =>
    match m.metafield v "__name", v with
    | .str s, _ => s
    | _, .light _ => bytes "light userdata"
    | _, v => bytes v.kind.name

end Machine

end ScriptBridge.Script

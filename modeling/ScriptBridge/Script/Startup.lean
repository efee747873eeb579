import ScriptBridge.Script.Prelude
import ScriptBridge.Script.Step

/-!
# ScriptBridge.Script.Startup

A fresh runtime: the main thread waiting for the host, the globals, and, if wanted, the standard
library.

Not all of the standard library works.  The functions of `inertNames` and the methods and metamethods
of files are there to be looked up, compared and passed on, but a call of one raises the error that it
is not supported: a script that calls one goes another way here than in a runtime that has it.  Missing
are above all what reads code (`load`), `coroutine.close`, patterns other than `string.gmatch`,
`string.format` and the packing of strings, and what reaches outside: files, time, chance, and the hooks
and frames of the debug library.
-/

namespace ScriptBridge.Script

/-- The name of the type of the userdata that hold handles. -/
def handleTypeName : String := "lunabridge.host_function"

namespace Startup

abbrev Build := StateM Machine

/-- A new table with these fields. -/
def newTable (fields : List (String × Value)) : Build TableId :=
  modifyGet fun m => m.newTable (fields.foldl (fun t f => t.setText f.1 f.2) .empty)

def setField (id : TableId) (name : String) (v : Value) : Build Unit :=
  modify fun m => m.modifyTable id fun t => t.setText name v

/-- A library function written as a script. -/
def scripted (proto : Proto) : Build Value := do
  return .closure (← modifyGet fun m => m.newClosure ⟨proto, proto.captures.map fun _ => 0⟩)

/-- A userdata with a metatable. -/
def newUserdata (metatable : TableId) : Build Value := do
  return .userdata (← modifyGet fun m => m.newUserdata (some metatable))

/-- The functions with something to do. -/
def builtins : List Builtin :=
  [.assert, .collectgarbage, .error, .getmetatable, .next, .pairs, .pcall, .rawequal, .rawget,
    .rawlen, .rawset, .select, .setmetatable, .tonumber, .tostring, .type, .xpcall,
    .coroutineCreate, .coroutineIsyieldable, .coroutineResume, .coroutineRunning,
    .coroutineStatus, .coroutineWrap, .coroutineYield, .stringByte, .stringChar, .stringGmatch,
    .stringLen, .stringLower, .stringRep, .stringReverse, .stringSlice, .stringUpper, .mathAbs,
    .mathFloor, .mathTointeger, .mathType, .debugGetmetatable, .debugGetupvalue,
    .debugSetmetatable, .debugSetupvalue, .debugUpvalueid]

/-- The functions that are only there to be seen, by library; a call of one fails. -/
def inertNames : List (Option String × List String) :=
  [(none, ["dofile", "load", "loadfile", "print", "require", "warn"]),
    (some "coroutine", ["close"]),
    (some "table", ["move"]),
    (some "io", ["close", "flush", "input", "lines", "open", "output", "popen", "read", "tmpfile",
      "type", "write"]),
    (some "os", ["clock", "date", "difftime", "execute", "exit", "getenv", "remove", "rename",
      "setlocale", "time", "tmpname"]),
    (some "string", ["dump", "find", "format", "gsub", "match", "pack", "packsize", "unpack"]),
    (some "math", ["acos", "asin", "atan", "ceil", "cos", "deg", "exp", "fmod", "log",
      "max", "min", "modf", "rad", "random", "randomseed", "sin", "sqrt", "tan", "ult"]),
    (some "utf8", ["char", "codepoint", "codes", "len", "offset"]),
    (some "debug", ["debug", "gethook", "getinfo", "getlocal", "getregistry", "getuservalue",
      "setcstacklimit", "sethook", "setlocal", "setuservalue", "traceback", "upvaluejoin"]),
    (some "package", ["loadlib", "searchpath"])]

/-- The functions of a library, or the global ones. -/
def functionsOf (library : Option String) : List (String × Value) :=
  let working := builtins.filterMap fun b =>
    let (l, name) := b.path
    if l = library then some (name, Value.builtin b) else none
  let inert := (inertNames.filter fun e => e.1 = library).flatMap fun e =>
    e.2.map fun name =>
      (name, Value.inert (match library with
        | some l => s!"{l}.{name}"
        | none => name))
  working ++ inert

/-- Opens the standard library. -/
def openLibraries (globals : TableId) : Build Unit := do
  for (name, f) in functionsOf none do setField globals name f
  setField globals "ipairs" (← scripted Prelude.ipairs)
  setField globals "_G" (.table globals)
  setField globals "_VERSION" (.str (bytes "Lua 5.4"))
  let loaded ← newTable [("_G", .table globals)]
  let openLibrary (name : String) (more : List (String × Value)) : Build TableId := do
    let id ← newTable (functionsOf (some name) ++ more)
    setField globals name (.table id)
    setField loaded name (.table id)
    return id
  let _ ← openLibrary "coroutine" []
  let _ ← openLibrary "table"
    [("concat", ← scripted Prelude.concat), ("insert", ← scripted Prelude.insert),
      ("pack", ← scripted Prelude.pack), ("remove", ← scripted Prelude.remove),
      ("sort", ← scripted Prelude.sort), ("unpack", ← scripted Prelude.unpack)]
  let fileMethods ← newTable (["close", "flush", "lines", "read", "seek", "setvbuf", "write"].map
    fun name => (name, Value.inert s!"file.{name}"))
  let fileMetatable ← newTable
    [("__name", .str (bytes "FILE*")), ("__index", .table fileMethods),
      ("__gc", .inert "file.__gc"), ("__close", .inert "file.__close"),
      ("__tostring", .inert "file.__tostring")]
  let _ ← openLibrary "io"
    [("stdin", ← newUserdata fileMetatable), ("stdout", ← newUserdata fileMetatable),
      ("stderr", ← newUserdata fileMetatable)]
  let _ ← openLibrary "os" []
  let strings ← openLibrary "string" []
  let stringMetatable ← newTable
    [("__index", .table strings), ("__add", .builtin .stringAdd), ("__sub", .builtin .stringSub),
      ("__mul", .builtin .stringMul), ("__mod", .builtin .stringMod),
      ("__pow", .builtin .stringPow), ("__div", .builtin .stringDiv),
      ("__idiv", .builtin .stringIdiv), ("__unm", .builtin .stringUnm)]
  modify fun m => m.setMetatable (.str ∅) (some stringMetatable)
  let _ ← openLibrary "math"
    [("pi", .float ⟨0x400921fb54442d18⟩), ("huge", .float (.infinity false)),
      ("maxinteger", .int Int64.maxValue), ("mininteger", .int Int64.minValue)]
  let _ ← openLibrary "utf8" [("charpattern", .str ⟨#[0x5b, 0x00, 0x2d, 0x7f, 0xc2, 0x2d, 0xfd,
    0x5d, 0x5b, 0x80, 0x2d, 0xbf, 0x5d, 0x2a]⟩)]
  let _ ← openLibrary "debug" []
  let preload ← newTable []
  let searchers ← newTable []
  let _ ← openLibrary "package"
    [("loaded", .table loaded), ("preload", .table preload), ("searchers", .table searchers),
      ("path", .str ∅), ("cpath", .str ∅), ("config", .str (bytes "/\n;\n?\n!\n-\n"))]
  modify fun m => { m with loaded := some loaded }

/-- The globals, the main thread, and what every runtime has. -/
def build (stdlib : Bool) : Build Unit := do
  modify fun m => { m with
    boxes := #[some .nil]
    threads := #[some ⟨.active, [], none⟩]
    frames := [.host ⟨1, 0, true⟩ .nil []] }
  let globals ← newTable []
  modify fun m => { m with globals := globals }
  if stdlib then openLibraries globals
  let handles ← newTable
    [("__name", .str (bytes handleTypeName)), ("__gc", .builtin .releaseHandle),
      ("__metatable", .bool false)]
  modify fun m => { m with handleMetatable := handles, mode := .paused .returned }

end Startup

/-- A fresh runtime. -/
def Machine.new (stdlib : Bool) : Machine := ((Startup.build stdlib).run default).2

end ScriptBridge.Script

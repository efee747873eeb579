import ScriptBridge.Script.Code

/-!
# ScriptBridge.Script.Compile

From the tree of a function to its code.  Statements leave the operand stack empty;
expressions leave one value, or, where several are wanted, as many as asked for.
-/

namespace ScriptBridge.Script

namespace Compile

/-- What the code of one function is built from. -/
structure Context where
  decls : Array Decl
  targets : List (Nat × Nat)
  levels : List (Nat × Nat)
  chunk : Bytes
  native : Bool
  /-- Places of variables that are to be closed, in the scopes around. -/
  closing : List Nat

/-- The code so far. -/
structure Emitted where
  code : Array Instr
  lines : Array Nat
  protos : Array Proto
  /-- Where labels are. -/
  labels : List (Nat × Nat)
  /-- Jumps that wait for the place of a label. -/
  waiting : List (Nat × Nat)
  line : Nat
  /-- How many operands there are, at most how many there were, and the places used. -/
  depth : Nat
  deepest : Nat
  slots : Nat

abbrev Emit := StateM Emitted

/-- How an instruction changes the number of operands: taken, then left. -/
def effect : Instr → Nat × Nat
  | .push _ | .slot _ | .boxed _ | .upval _ | .newTable | .closure _ => (0, 1)
  | .pop n => (n, 0)
  | .setSlot _ | .setBoxed _ | .newBox _ | .setUpval _ | .jumpUnless _ | .andJump _
  | .orJump _ => (1, 0)
  | .index _ => (2, 1)
  | .field .. => (1, 1)
  | .method .. => (1, 2)
  | .store .. => (1, 0)
  | .setItem => (2, 0)
  | .append _ count _ => (count, 0)
  | .binary .. | .compare _ => (2, 1)
  | .unary .. => (1, 1)
  | .concat n _ => (n, 1)
  | .call args _ (.exactly n) _ => (args + 1, n)
  | .call args _ .all _ => (args + 1, 1)
  | .vararg (.exactly n) => (0, n)
  | .vararg .all => (0, 1)
  | _ => (0, 0)

def emit (i : Instr) : Emit Unit :=
  modify fun s =>
    let (taken, left) := effect i
    let depth := s.depth - taken + left
    { s with
      code := s.code.push i, lines := s.lines.push s.line
      depth := depth, deepest := max s.deepest (s.slots + depth) }

def setLine (line : Nat) : Emit Unit := modify fun s => { s with line := line }

/-- The place of the next instruction. -/
def here : Emit Nat := return (← get).code.size

/-- Puts a jump where a place was left for it. -/
def patch (pc : Nat) (i : Instr) : Emit Unit :=
  modify fun s => { s with code := s.code.setIfInBounds pc i }

/-- Emits a jump whose target is not known yet. -/
def emitJump (i : Nat → Instr) : Emit Nat := do
  let pc ← here
  emit (i 0)
  return pc

/-- Notes that places up to `n` are used. -/
def useSlots (n : Nat) : Emit Unit :=
  modify fun s => { s with slots := max s.slots n }

def isEnv : Expr → Bool
  | .variable _ name => name == bytes "_ENV"
  | _ => false

/-- How error messages call the value of an expression. -/
def origin : Expr → Origin
  | .variable (.slot _) name => .slot name
  | .variable (.upval _) name => .upvalue name
  | .constant (.str s) => .constant s
  | .paren e => origin e
  | .index object key _ =>
    let name :=
      match key with
      | .constant (.str s) => s
      | .constant (.int i) => if 0 ≤ i ∧ i ≤ 255 then bytes "integer index" else bytes "?"
      | _ => bytes "?"
    if isEnv object then .global name else .field name
  | _ => .unknown

/-- Whether an expression can have several values. -/
def isMulti : Expr → Bool
  | .vararg | .call .. | .method .. => true
  | _ => false

def isCall : Expr → Bool
  | .call .. | .method .. => true
  | _ => false

def declOf (ctx : Context) (d : Nat) : Decl := ctx.decls.getD d default

/-- Takes a value off the operands into a variable that begins to live. -/
def bind (ctx : Context) (d : Nat) : Emit Unit := do
  let decl := declOf ctx d
  useSlots (decl.slot + 1)
  emit (if decl.captured then .newBox decl.slot else .setSlot decl.slot)
  if decl.attrib = .close then emit (.markClose decl.slot decl.name)

/-- Assigns to a variable. -/
def assignVariable (ctx : Context) : Place → Emit Unit
  | .slot d =>
    let decl := declOf ctx d
    emit (if decl.captured then .setBoxed decl.slot else .setSlot decl.slot)
  | .upval i => emit (.setUpval i)

/-- Leaves `n` nils. -/
def pushNils (n : Nat) : Emit Unit := (List.replicate n ()).forM fun _ => emit (.push .nil)

/-- The places of the variables to be closed that statements declare. -/
def closingOf (ctx : Context) (stats : List Stat) : List Nat :=
  stats.flatMap fun
    | .locals ds _ _ =>
      ds.filterMap fun d =>
        let decl := declOf ctx d
        if decl.attrib = .close then some decl.slot else none
    | _ => []

/-- Whether statements declare variables. -/
def declares (stats : List Stat) : Bool :=
  stats.any fun
    | .locals .. | .localFunction .. => true
    | _ => false

/-- Leaves a scope: closes its variables and forgets them. -/
def leaveScope (ctx : Context) (base : Nat) (stats : List Stat) : Emit Unit := do
  if !(closingOf ctx stats).isEmpty then emit (.closeFrom base)
  if declares stats then emit (.clear base)

/-- After an expression with one value: the number of values wanted. -/
def settle : Want → Emit Unit
  | .exactly 0 => emit (.pop 1)
  | .exactly (n + 1) => pushNils n
  | .all => return ()

/-- One value. -/
abbrev one : Want := .exactly 1

/-- Code that makes a function of the given code. -/
def emitClosure (proto : Proto) : Emit Unit := do
  let i := (← get).protos.size
  modify fun s => { s with protos := s.protos.push proto }
  emit (.closure i)

mutual

/-- Code that leaves the wanted number of values of an expression. -/
def expr (ctx : Context) (want : Want) : Expr → Emit Unit
  | .constant v => do
    emit (.push v)
    settle want
  | .vararg => emit (.vararg want)
  | .variable (.slot d) _ => do
    let decl := declOf ctx d
    emit (if decl.captured then .boxed decl.slot else .slot decl.slot)
    settle want
  | .variable (.upval i) _ => do
    emit (.upval i)
    settle want
  | .index object key line => do
    expr ctx one object
    match key with
    | .constant (.str s) =>
      setLine line
      emit (.field s (origin object))
    | key =>
      expr ctx one key
      setLine line
      emit (.index (origin object))
    settle want
  | .call f args line => do
    expr ctx one f
    let (n, spread) ← arguments ctx args
    setLine line
    emit (.call n spread want (origin f))
  | .method object name args nameLine line => do
    expr ctx one object
    setLine nameLine
    emit (.method name (origin object))
    let (n, spread) ← arguments ctx args
    setLine line
    emit (.call (n + 1) spread want (.method name))
  | .function f => do
    emitClosure (function ctx.chunk ctx.native (some ctx) f)
    settle want
  | .table items => do
    emit .newTable
    tableItems ctx items 1
    settle want
  | .unary op e line => do
    expr ctx one e
    setLine line
    emit (.unary op (origin e))
    settle want
  | .binary op a b line => do
    expr ctx one a
    expr ctx one b
    setLine line
    emit (.binary op (origin a) (origin b))
    settle want
  | .compare op a b line => do
    expr ctx one a
    expr ctx one b
    setLine line
    emit (.compare op)
    settle want
  | .concat parts line => do
    exprs ctx parts
    setLine line
    emit (.concat parts.length (parts.map origin))
    settle want
  | .and a b => do
    expr ctx one a
    let pc ← emitJump .andJump
    expr ctx one b
    patch pc (.andJump (← here))
    settle want
  | .or a b => do
    expr ctx one a
    let pc ← emitJump .orJump
    expr ctx one b
    patch pc (.orJump (← here))
    settle want
  | .paren e => do
    expr ctx one e
    settle want

/-- Code that leaves one value of each expression. -/
def exprs (ctx : Context) : List Expr → Emit Unit
  | [] => return ()
  | e :: rest => do
    expr ctx one e
    exprs ctx rest

/-- Code for a call that ends its function.  Only a script function takes the place of the one
that calls it; the results of any other are left to be passed on. -/
def tailCall (ctx : Context) : Expr → Emit Unit
  | .call f args line => do
    expr ctx one f
    let (n, spread) ← arguments ctx args
    setLine line
    emit (.tailCall n spread (origin f))
  | .method object name args nameLine line => do
    expr ctx one object
    setLine nameLine
    emit (.method name (origin object))
    let (n, spread) ← arguments ctx args
    setLine line
    emit (.tailCall (n + 1) spread (.method name))
  | _ => return ()

/-- Code for arguments: how many operands they are, and whether the last is spread. -/
def arguments (ctx : Context) : List Expr → Emit (Nat × Bool)
  | [] => return (0, false)
  | [e] =>
    if isMulti e then do
      expr ctx .all e
      return (0, true)
    else do
      expr ctx one e
      return (1, false)
  | e :: rest => do
    expr ctx one e
    let (n, spread) ← arguments ctx rest
    return (n + 1, spread)

/-- Code that leaves exactly `n` values of a list of expressions. -/
def adjust (ctx : Context) (n : Nat) : List Expr → Emit Unit
  | [] => pushNils n
  | [e] => expr ctx (.exactly n) e
  | e :: rest => do
    expr ctx one e
    if n = 0 then emit (.pop 1)
    adjust ctx (n - 1) rest

/-- Code for the items of a table constructor, positional ones from `position` on. -/
def tableItems (ctx : Context) : List Item → (position : Nat) → Emit Unit
  | [], _ => return ()
  | [.positional e], position =>
    if isMulti e then do
      expr ctx .all e
      emit (.append position 0 true)
    else do
      expr ctx one e
      emit (.append position 1 false)
  | .positional e :: rest, position => do
    expr ctx one e
    emit (.append position 1 false)
    tableItems ctx rest (position + 1)
  | .keyed key value line :: rest, position => do
    expr ctx one key
    expr ctx one value
    setLine line
    emit .setItem
    tableItems ctx rest position

/-- The code of a function, given the one around it. -/
def function (chunk : Bytes) (native : Bool) (outer : Option Context) : Function → Proto
  | .mk params vararg decls upvals body targets levels _ =>
    let ctx : Context := ⟨decls, targets, levels, chunk, native, []⟩
    let start : Emitted := ⟨#[], #[], #[], [], [], 0, 0, 2, params.length⟩
    let build : Emit Unit := do
      params.forM fun d => do
        let decl := declOf ctx d
        if decl.captured then
          emit (.slot decl.slot)
          emit (.newBox decl.slot)
      block ctx body
      emit (.leave 0 false)
    let (_, s) := build.run start
    let code := s.waiting.foldl
      (fun code (pc, label) =>
        code.setIfInBounds pc (.jump ((s.labels.find? fun l => l.1 == label).map (·.2) |>.getD 0)))
      s.code
    let captures := upvals.map fun u =>
      let index :=
        if u.fromLocal then
          match outer with
          | some o => (declOf o u.index).slot
          | none => u.index
        else u.index
      Capture.mk u.name u.fromLocal index
    .mk code s.lines s.protos captures params.length vararg s.slots
      (max s.deepest (s.slots + 1)) chunk native

/-- Code for the statements of a block and for leaving it. -/
def block (ctx : Context) : Block → Emit Unit
  | .mk base stats => do
    statements { ctx with closing := closingOf ctx stats ++ ctx.closing } stats
    leaveScope ctx base stats

def statements (ctx : Context) : List Stat → Emit Unit
  | [] => return ()
  | s :: rest => do
    modify fun e => { e with depth := 0 }
    statement ctx s
    statements ctx rest

def statement (ctx : Context) : Stat → Emit Unit
  | .locals ds values line => do
    adjust ctx ds.length values
    setLine line
    ds.reverse.forM (bind ctx)
  | .localFunction d f => do
    let decl := declOf ctx d
    if decl.captured then
      emit (.push .nil)
      bind ctx d
      emitClosure (function ctx.chunk ctx.native (some ctx) f)
      emit (.setBoxed decl.slot)
    else
      emitClosure (function ctx.chunk ctx.native (some ctx) f)
      bind ctx d
  | .assign targets values line => do
    let pairs ← targetOperands ctx targets
    adjust ctx targets.length values
    setLine line
    storeTargets ctx targets.reverse (targets.length - 1) 0
    if pairs ≠ 0 then emit (.pop (2 * pairs))
  | .call e => expr ctx (.exactly 0) e
  | .block b => block ctx b
  | .while cond body exit => do
    let start ← here
    expr ctx one cond
    let out ← emitJump .jumpUnless
    block ctx body
    emit (.jump start)
    patch out (.jumpUnless (← here))
    placeLabel exit
  | .repeat (.mk base stats) cond exit => do
    let start ← here
    let inner := { ctx with closing := closingOf ctx stats ++ ctx.closing }
    statements inner stats
    expr inner one cond
    if !(closingOf ctx stats).isEmpty then emit (.closeFrom base)
    emit (.jumpUnless start)
    placeLabel exit
    if declares stats then emit (.clear base)
  | .branch clauses otherwise => do
    let outs ← clausesCode ctx clauses
    match otherwise with
    | some b => block ctx b
    | none => pure ()
    let pc ← here
    outs.forM fun out => patch out (.jump pc)
  | .numericFor hidden var start limit step (.mk base stats) exit line => do
    let slot := (declOf ctx hidden).slot
    useSlots (slot + 3)
    expr ctx one start
    expr ctx one limit
    match step with
    | some e => expr ctx one e
    | none => emit (.push (.int 1))
    setLine line
    let prep ← emitJump (.forPrep slot)
    let body ← here
    bind ctx var
    statements { ctx with closing := closingOf ctx stats ++ ctx.closing } stats
    leaveScope ctx base stats
    emit (.forLoop slot body)
    patch prep (.forPrep slot (← here))
    placeLabel exit
    emit (.clear slot)
  | .genericFor hidden vars values (.mk base stats) exit line => do
    let slot := (declOf ctx hidden).slot
    useSlots (slot + 4)
    adjust ctx 4 values
    setLine line
    emit (.setSlot (slot + 3))
    emit (.setSlot (slot + 2))
    emit (.setSlot (slot + 1))
    emit (.setSlot slot)
    emit (.markClose (slot + 3) (bytes "(for state)"))
    let test ← here
    setLine line
    emit (.slot slot)
    emit (.slot (slot + 1))
    emit (.slot (slot + 2))
    emit (.call 2 false (.exactly vars.length) .forIterator)
    let out ← emitJump (.forTest slot vars.length)
    vars.reverse.forM (bind ctx)
    statements { ctx with closing := closingOf ctx stats ++ (slot + 3) :: ctx.closing } stats
    leaveScope ctx base stats
    emit (.jump test)
    patch out (.forTest slot vars.length (← here))
    placeLabel exit
    emit (.closeFrom slot)
    emit (.clear slot)
  | .return values line => do
    match values with
    | [e] =>
      if isMulti e then
        if isCall e && ctx.closing.isEmpty then
          tailCall ctx e
          emit (.leave 0 true)
        else
          expr ctx .all e
          setLine line
          emit (.leave 0 true)
      else
        expr ctx one e
        setLine line
        emit (.leave 1 false)
    | values =>
      let (n, spread) ← arguments ctx values
      setLine line
      emit (.leave n spread)
  | .label id => placeLabel id
  | .goto id => do
    let label := ((ctx.targets.find? fun t => t.1 == id).map (·.2)).getD 0
    let level := ((ctx.levels.find? fun l => l.1 == label).map (·.2)).getD 0
    if ctx.closing.any fun slot => level ≤ slot then emit (.closeFrom level)
    emit (.clear level)
    let pc ← emitJump .jump
    modify fun s => { s with waiting := (pc, label) :: s.waiting }

/-- Notes that a label is here. -/
def placeLabel (id : Nat) : Emit Unit :=
  modify fun s => { s with labels := (id, s.code.size) :: s.labels }

/-- Objects and keys of the indexed targets of an assignment; how many there are. -/
def targetOperands (ctx : Context) : List Expr → Emit Nat
  | [] => return 0
  | .index object key _ :: rest => do
    expr ctx one object
    expr ctx one key
    return (← targetOperands ctx rest) + 1
  | _ :: rest => targetOperands ctx rest

/-- Assigns to targets, the last first: `left` values remain after the current one, and
`passed` indexed targets have been assigned. -/
def storeTargets (ctx : Context) : List Expr → (left passed : Nat) → Emit Unit
  | [], _, _ => return ()
  | .variable place _ :: rest, left, passed => do
    assignVariable ctx place
    storeTargets ctx rest (left - 1) passed
  | .index object _ _ :: rest, left, passed => do
    emit (.store (left + 2 * passed) (origin object))
    storeTargets ctx rest (left - 1) (passed + 1)
  | _ :: rest, left, passed => do
    emit (.pop 1)
    storeTargets ctx rest (left - 1) passed

/-- Conditions with their blocks; the jumps to the end of the whole. -/
def clausesCode (ctx : Context) : List Clause → Emit (List Nat)
  | [] => return []
  | .mk cond body :: rest => do
    expr ctx one cond
    let out ← emitJump .jumpUnless
    block ctx body
    let done ← emitJump .jump
    patch out (.jumpUnless (← here))
    return done :: (← clausesCode ctx rest)

end

end Compile

/-- The code of a whole script. -/
def Function.compile (f : Function) (chunk : Bytes) (native : Bool) : Proto :=
  Compile.function chunk native none f

end ScriptBridge.Script

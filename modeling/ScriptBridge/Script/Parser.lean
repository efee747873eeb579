import ScriptBridge.Script.Syntax
import ScriptBridge.Script.Token

/-!
# ScriptBridge.Script.Parser

From the text of a script to its tree.  Names are resolved on the way: the parser keeps, for
every function it is inside of, the variables in scope, the variables captured so far, and the
jumps whose labels have not been seen.

Expressions and statements nest at most two hundred deep, counted together with the calls that
are active when the script is loaded.  Recursion goes through `Nested`, the parsers for one
level further in, so that it ends where that limit does; repetition within one level is
bounded by the length of the text.
-/

namespace ScriptBridge.Script

/-- What a name in scope stands for. -/
inductive Binding where
  | slot (decl : Nat)
  /-- A constant known when the script is read. -/
  | constant (v : Value)

/-- A jump that has not met its label. -/
structure Jump where
  id : Nat
  name : Bytes
  line : Nat
  /-- How many names were in scope. -/
  scope : Nat

/-- A label that jumps can lead to. -/
structure Label where
  id : Nat
  name : Bytes
  line : Nat
  scope : Nat

/-- A block being read. -/
structure OpenBlock where
  /-- How many names, and how many places, were in use around it. -/
  scope : Nat
  slots : Nat
  labels : List Label
  /-- How many jumps were waiting when it began. -/
  waiting : Nat

/-- A function being read; scopes and jumps have the latest first. -/
structure OpenFunction where
  decls : Array Decl
  scope : List (Bytes × Binding)
  slots : Nat
  upvals : Array UpvalDecl
  vararg : Bool
  blocks : List OpenBlock
  jumps : List Jump
  issued : Nat
  targets : List (Nat × Nat)
  levels : List (Nat × Nat)
  line : Nat

instance : Inhabited OpenFunction := ⟨⟨#[], [], 0, #[], false, [], [], 0, [], [], 0⟩⟩

structure ParseState where
  current : Lexeme
  ahead : Option Lexeme
  /-- The line of the token read last. -/
  lastLine : Nat
  /-- The functions being read, the innermost first. -/
  functions : List OpenFunction
  /-- How deep expressions and statements nest here. -/
  depth : Nat
  length : Nat
  /-- Names that stand for values instead of globals. -/
  known : Bytes → Option Value

abbrev Parse := StateT ParseState (Except SyntaxError)

namespace Parse

/-! ## Tokens and errors -/

/-- The line reading has got to. -/
def line : Parse Nat := do
  let s ← get
  return (s.ahead.getD s.current).line

def token : Parse Token := return (← get).current.token

/-- An error at the current token. -/
def failNear {α : Type} (what : Bytes) : Parse α := do
  let s ← get
  throw ⟨some (← line), what, some s.current.nearText⟩

/-- An error about the meaning of the text, which quotes no token. -/
def failMeaning {α : Type} (what : Bytes) : Parse α := do
  throw ⟨some (← line), what, none⟩

/-- Moves on to the next token. -/
def next : Parse Unit := do
  let s ← get
  let l ← line
  match s.ahead with
  | some t => set { s with current := t, ahead := none, lastLine := l }
  | none =>
    let t ← Token.read s.length (s.length + 1) s.current.rest s.current.line
    set { s with current := t, lastLine := l }

/-- The token after the current one. -/
def peek : Parse Token := do
  let s ← get
  match s.ahead with
  | some t => return t.token
  | none =>
    let t ← Token.read s.length (s.length + 1) s.current.rest s.current.line
    set { s with ahead := some t }
    return t.token

/-- Skips a token if it is the current one. -/
def accept (t : Token) : Parse Bool := do
  if (← token) = t then next; return true else return false

def acceptSymbol (s : Symbol) : Parse Bool := accept (.symbol s)

def failExpected {α : Type} (t : Token) : Parse α := failNear (t.expectedText ++ bytes " expected")

def expect (t : Token) : Parse Unit := do
  unless ← accept t do failExpected t

/-- A closing token; an error names the opening one if it is on another line. -/
def close (what opening : Token) (opened : Nat) : Parse Unit := do
  unless ← accept what do
    if (← line) = opened then failExpected what
    else
      failNear (what.expectedText ++ bytes " expected (to close " ++ opening.expectedText
        ++ bytes s!" at line {opened})")

def name : Parse Bytes := do
  match ← token with
  | .name s => next; return s
  | _ => failExpected (.name ∅)

/-- Repeats a step until it yields a result, at most as often as the text has bytes. -/
def iterate {σ α : Type} (step : σ → Parse (Sum σ α)) : (fuel : Nat) → σ → Parse α
  | 0, _ => throw ⟨none, bytes "chunk has too many syntax levels", none⟩
  | fuel + 1, s => do
    match ← step s with
    | .inl s => iterate step fuel s
    | .inr a => return a

/-- `iterate` with enough fuel for one step a token. -/
def repeated {σ α : Type} (s : σ) (step : σ → Parse (Sum σ α)) : Parse α := do
  iterate step ((← get).length + 2) s

/-- Reads something nested one level further in. -/
def nested {α : Type} (p : Parse α) : Parse α := do
  let depth := (← get).depth + 1
  if 200 ≤ depth then throw ⟨none, bytes "C stack overflow", none⟩
  modify fun s => { s with depth := depth }
  let a ← p
  modify fun s => { s with depth := depth - 1 }
  return a

/-! ## Scopes -/

/-- The innermost function. -/
def fn : Parse OpenFunction := return (← get).functions.headD default

def modifyFn (f : OpenFunction → OpenFunction) : Parse Unit :=
  modify fun s =>
    match s.functions with
    | [] => s
    | g :: rest => { s with functions := f g :: rest }

/-- Which function an error about a limit is in. -/
def whereText (f : OpenFunction) : String :=
  if f.line = 0 then "main function" else s!"function at line {f.line}"

/-- Declares a local variable, which is not in scope yet. -/
def declare (name : Bytes) (attrib : Attrib) : Parse Nat := do
  let f ← fn
  modifyFn fun f => { f with decls := f.decls.push ⟨name, 0, attrib, false⟩ }
  return f.decls.size

/-- Brings declared variables into scope, each at the next free place. -/
def activate (ds : List Nat) : Parse Unit :=
  modifyFn fun f =>
    ds.foldl (fun f d =>
      { f with
        decls := f.decls.modify d fun v => { v with slot := f.slots }
        scope := ((f.decls.getD d default).name, .slot d) :: f.scope
        slots := f.slots + 1 }) f

/-- Refuses more local variables than a function may have. -/
def checkLocals (pending : Nat) : Parse Unit := do
  let f ← fn
  if 200 < f.scope.length + pending then
    failNear (bytes s!"too many local variables (limit is 200) in {whereText f}")

/-- What a name is bound to in a list of functions, the innermost first, and those functions
with the captures noted that the name needs. -/
def resolve (name : Bytes) :
    List OpenFunction → Option ((Binding ⊕ (Nat × Bool)) × List OpenFunction)
  | [] => none
  | f :: outer =>
    match f.scope.find? fun e => e.1 == name with
    | some (_, b) => some (.inl b, f :: outer)
    | none =>
      match f.upvals.findIdx? fun u => u.name == name with
      | some i => some (.inr (i, (f.upvals.getD i default).readOnly), f :: outer)
      | none =>
        match resolve name outer with
        | none => none
        | some (.inl (.constant v), outer) => some (.inl (.constant v), f :: outer)
        | some (.inl (.slot d), outer) =>
          let parent := outer.headD default
          let readOnly := (parent.decls.getD d default).attrib != .regular
          let outer := match outer with
            | [] => []
            | g :: rest =>
              { g with decls := g.decls.modify d fun v => { v with captured := true } } :: rest
          some (.inr (f.upvals.size, readOnly),
            { f with upvals := f.upvals.push ⟨name, true, d, readOnly⟩ } :: outer)
        | some (.inr (i, readOnly), outer) =>
          some (.inr (f.upvals.size, readOnly),
            { f with upvals := f.upvals.push ⟨name, false, i, readOnly⟩ } :: outer)

/-- The variable of a name that is in scope. -/
def lookup (name : Bytes) : Parse (Option Expr) := do
  let s ← get
  match resolve name s.functions with
  | none => return none
  | some (found, functions) =>
    set { s with functions := functions }
    if (functions.headD default).upvals.size > 255 then
      failNear (bytes s!"too many upvalues (limit is 255) in {whereText (functions.headD default)}")
    match found with
    | .inl (.slot d) => return some (.variable (.slot d) name)
    | .inl (.constant v) => return some (.constant v)
    | .inr (i, _) => return some (.variable (.upval i) name)

/-- The name of the variable that holds the globals. -/
def envName : Bytes := bytes "_ENV"

/-- A name as an expression: a variable in scope, a known value, or a field of the globals. -/
def nameExpr (name : Bytes) : Parse Expr := do
  match ← lookup name with
  | some e => return e
  | none =>
    match (← get).known name with
    | some v => return .constant v
    | none =>
      let env := (← lookup envName).getD (.constant .nil)
      return .index env (.constant (.str name)) (← get).lastLine

/-- Refuses an assignment to a variable that cannot be assigned. -/
def checkAssignable (nameRead : Option Bytes) (e : Expr) : Parse Unit := do
  let f ← fn
  let refused : Option Bytes :=
    match e with
    | .variable (.slot d) name =>
      if (f.decls.getD d default).attrib == .regular then none else some name
    | .variable (.upval i) name =>
      if (f.upvals.getD i default).readOnly then some name else none
    | .constant _ => nameRead
    | _ => none
  match refused with
  | some name => failMeaning (bytes "attempt to assign to const variable '" ++ name ++ bytes "'")
  | none => return ()

/-! ## Blocks, labels and jumps -/

def openBlock : Parse Unit :=
  modifyFn fun f =>
    { f with blocks := ⟨f.scope.length, f.slots, [], f.jumps.length⟩ :: f.blocks }

/-- A fresh number for a jump or label. -/
def fresh : Parse Nat := do
  let f ← fn
  modifyFn fun f => { f with issued := f.issued + 1 }
  return f.issued

/-- Sends the jumps of a name, among those waiting since the block began, to a label. -/
def settleJumps (label : Label) (waiting : Nat) : Parse Unit := do
  let f ← fn
  let inBlock := f.jumps.take (f.jumps.length - waiting)
  let older := f.jumps.drop (f.jumps.length - waiting)
  let (met, left) := inBlock.partition fun j => j.name == label.name
  for j in met.reverse do
    if j.scope < label.scope then
      -- a jump may not enter the scope of a variable
      let entered := f.scope.reverse.getD j.scope (∅, .constant .nil)
      failMeaning (bytes "<goto " ++ j.name ++ bytes s!"> at line {j.line} jumps into the scope of local '"
        ++ entered.1 ++ bytes "'")
  modifyFn fun f =>
    { f with jumps := left ++ older, targets := met.map (fun j => (j.id, label.id)) ++ f.targets }

/-- Puts a label into the current block. -/
def placeLabel (name : Bytes) (labelLine : Nat) (isLast : Bool) : Parse Nat := do
  let f ← fn
  let id ← fresh
  let block := f.blocks.headD ⟨0, 0, [], 0⟩
  let label : Label := ⟨id, name, labelLine, if isLast then block.scope else f.scope.length⟩
  let slots := if isLast then block.slots else f.slots
  modifyFn fun f =>
    { f with
      levels := (id, slots) :: f.levels
      blocks := match f.blocks with
        | b :: rest => { b with labels := label :: b.labels } :: rest
        | [] => [] }
  settleJumps label block.waiting
  return id

def breakName : Bytes := bytes "break"

/-- Leaves a block: its names go out of scope, and the jumps still waiting now wait in the
block around it.  After a loop comes the place that `break` leads to, if it has one. -/
def closeBlock (exit : Bool) : Parse Nat := do
  let f ← fn
  let block := f.blocks.headD ⟨0, 0, [], 0⟩
  let waiting := f.jumps.take (f.jumps.length - block.waiting)
  let older := f.jumps.drop (f.jumps.length - block.waiting)
  modifyFn fun f =>
    { f with
      scope := f.scope.drop (f.scope.length - block.scope)
      slots := block.slots
      blocks := f.blocks.drop 1
      jumps := waiting.map (fun j => { j with scope := min j.scope block.scope }) ++ older }
  let id ← fresh
  if exit then
    let label : Label := ⟨id, breakName, 0, block.scope⟩
    modifyFn fun f => { f with levels := (id, block.slots) :: f.levels }
    settleJumps label block.waiting
  if block.scope = 0 ∧ (← fn).blocks.isEmpty then
    -- the end of the function: no label can come any more
    match (← fn).jumps.reverse with
    | [] => return id
    | j :: _ =>
      if j.name == breakName then failMeaning (bytes s!"break outside loop at line {j.line}")
      else
        failMeaning (bytes "no visible label '" ++ j.name ++ bytes s!"' for <goto> at line {j.line}")
  return id

/-- A jump to a label that is visible already, or that is still to come. -/
def jump (name : Bytes) (jumpLine : Nat) : Parse Stat := do
  let f ← fn
  let id ← fresh
  match (f.blocks.flatMap (·.labels)).find? fun l => l.name == name with
  | some l => modifyFn fun f => { f with targets := (id, l.id) :: f.targets }
  | none =>
    modifyFn fun f => { f with jumps := ⟨id, name, jumpLine, f.scope.length⟩ :: f.jumps }
  return .goto id

/-! ## Expressions -/

/-- The parsers for one level further in. -/
structure Nested where
  expr : (limit : Nat) → Parse Expr
  stat : Parse (List Stat)

/-- The expression at the outermost priority. -/
def Nested.any (r : Nested) : Parse Expr := r.expr 0

/-- Expressions between commas. -/
def exprList (r : Nested) : Parse (List Expr) := do
  let first ← r.any
  repeated [first] fun acc => do
    if ← acceptSymbol .comma then return .inl ((← r.any) :: acc) else return .inr acc.reverse

/-- Whether the current token ends a block. -/
def blockEnds (withUntil : Bool) : Parse Bool := do
  match ← token with
  | .eof | .keyword .else | .keyword .elseif | .keyword .end => return true
  | .keyword .until => return withUntil
  | _ => return false

/-- Statements up to the end of a block; `return` is the last of them. -/
def statList (r : Nested) : Parse (List Stat) :=
  repeated ([] : List (List Stat)) fun acc => do
    if ← blockEnds true then return .inr acc.reverse.flatten
    else if (← token) = .keyword .return then return .inr ((← r.stat) :: acc).reverse.flatten
    else return .inl ((← r.stat) :: acc)

/-- A block with a scope of its own. -/
def block (r : Nested) : Parse Block := do
  openBlock
  let base := (← fn).slots
  let stats ← statList r
  discard (closeBlock false)
  return .mk base stats

/-- Starts a function. -/
def openFunction (vararg : Bool) (upvals : Array UpvalDecl) (startLine : Nat) : Parse Unit :=
  modify fun s =>
    { s with functions :=
        ⟨#[], [], 0, upvals, vararg, [], [], 0, [], [], startLine⟩ :: s.functions }

/-- The parameters between parentheses, after those that stand there already. -/
def parameters (given : List Nat) : Parse (List Nat) := do
  if (← token) = .symbol .parenClose then return given
  repeated given fun acc => do
    match ← token with
    | .name s =>
      next
      checkLocals (acc.length + 1)
      let d ← declare s .regular
      if ← acceptSymbol .comma then return .inl (acc ++ [d]) else return .inr (acc ++ [d])
    | .symbol .dot3 =>
      next
      modifyFn fun f => { f with vararg := true }
      return .inr acc
    | _ => failNear (bytes "<name> or '...' expected")

/-- Parameters and body of a function. -/
def functionBody (r : Nested) (isMethod : Bool) (startLine : Nat) : Parse Function := do
  openFunction false #[] startLine
  openBlock
  expect (.symbol .parenOpen)
  let self ← if isMethod then pure [← declare (bytes "self") .regular] else pure []
  let params ← parameters self
  activate params
  expect (.symbol .parenClose)
  let stats ← statList r
  close (.keyword .end) (.keyword .function) startLine
  discard (closeBlock false)
  let f ← fn
  modify fun s => { s with functions := s.functions.drop 1 }
  return .mk params f.vararg f.decls f.upvals (.mk 0 stats) f.targets f.levels startLine

/-- A table constructor. -/
def tableConstructor (r : Nested) : Parse Expr := do
  let opened ← line
  expect (.symbol .braceOpen)
  let items ← repeated ([] : List Item) fun acc => do
    if (← token) = .symbol .braceClose then return .inr acc.reverse
    let item ← (do
      match ← token with
      | .name s =>
        if (← peek) = .symbol .assign then
          next
          next
          let v ← r.any
          return .keyed (.constant (.str s)) v (← get).lastLine
        else return .positional (← r.any)
      | .symbol .bracketOpen =>
        next
        let k ← r.any
        expect (.symbol .bracketClose)
        expect (.symbol .assign)
        let v ← r.any
        return .keyed k v (← get).lastLine
      | _ => return .positional (← r.any) : Parse Item)
    if (← acceptSymbol .comma) then return .inl (item :: acc)
    else if (← acceptSymbol .semicolon) then return .inl (item :: acc)
    else return .inr (item :: acc).reverse
  close (.symbol .braceClose) (.symbol .braceOpen) opened
  return .table items

/-- The arguments of a call. -/
def arguments (r : Nested) : Parse (List Expr) := do
  match ← token with
  | .symbol .parenOpen =>
    let opened ← line
    next
    if (← acceptSymbol .parenClose) then return []
    let args ← exprList r
    close (.symbol .parenClose) (.symbol .parenOpen) opened
    return args
  | .symbol .braceOpen => return [← tableConstructor r]
  | .string s => next; return [.constant (.str s)]
  | _ => failNear (bytes "function arguments expected")

/-- A name or an expression in parentheses, and the name if it is one. -/
def primary (r : Nested) : Parse (Expr × Option Bytes) := do
  match ← token with
  | .name s =>
    next
    return (← nameExpr s, some s)
  | .symbol .parenOpen =>
    let opened ← line
    next
    let e ← r.any
    close (.symbol .parenClose) (.symbol .parenOpen) opened
    return (.paren e, none)
  | _ => failNear (bytes "unexpected symbol")

/-- A primary expression with fields, indices, methods and calls after it. -/
def suffixed (r : Nested) : Parse (Expr × Option Bytes) := do
  let first ← primary r
  repeated first fun (e, shown) => do
    match ← token with
    | .symbol .dot =>
      next
      let k ← name
      return .inl (.index e (.constant (.str k)) (← get).lastLine, none)
    | .symbol .bracketOpen =>
      next
      let k ← r.any
      expect (.symbol .bracketClose)
      return .inl (.index e k (← get).lastLine, none)
    | .symbol .colon =>
      next
      let k ← name
      let nameLine := (← get).lastLine
      let callLine ← line
      let args ← arguments r
      return .inl (.method e k args nameLine callLine, none)
    | .symbol .parenOpen | .symbol .braceOpen | .string _ =>
      let callLine ← line
      let args ← arguments r
      return .inl (.call e args callLine, none)
    | _ => return .inr (e, shown)

/-- An expression without operators. -/
def simple (r : Nested) : Parse Expr := do
  match ← token with
  | .number v => next; return .constant v
  | .string s => next; return .constant (.str s)
  | .keyword .nil => next; return .constant .nil
  | .keyword .true => next; return .constant (.bool true)
  | .keyword .false => next; return .constant (.bool false)
  | .symbol .dot3 =>
    unless (← fn).vararg do failNear (bytes "cannot use '...' outside a vararg function")
    next
    return .vararg
  | .symbol .braceOpen => tableConstructor r
  | .keyword .function =>
    let startLine ← line
    next
    return .function (← functionBody r false startLine)
  | _ => return (← suffixed r).1

/-- What a binary operator builds, and its two priorities. -/
inductive Operator where
  | arith (op : BinaryOp)
  | compare (op : Comparison)
  | concat
  | and
  | or

def Operator.ofToken? : Token → Option (Operator × Nat × Nat)
  | .symbol .plus => some (.arith .add, 10, 10)
  | .symbol .minus => some (.arith .sub, 10, 10)
  | .symbol .star => some (.arith .mul, 11, 11)
  | .symbol .percent => some (.arith .mod, 11, 11)
  | .symbol .slash => some (.arith .div, 11, 11)
  | .symbol .slash2 => some (.arith .idiv, 11, 11)
  | .symbol .caret => some (.arith .pow, 14, 13)
  | .symbol .dot2 => some (.concat, 9, 8)
  | .symbol .shiftLeft => some (.arith .shl, 7, 7)
  | .symbol .shiftRight => some (.arith .shr, 7, 7)
  | .symbol .amp => some (.arith .band, 6, 6)
  | .symbol .tilde => some (.arith .bxor, 5, 5)
  | .symbol .bar => some (.arith .bor, 4, 4)
  | .symbol .eq => some (.compare .eq, 3, 3)
  | .symbol .ne => some (.compare .ne, 3, 3)
  | .symbol .lt => some (.compare .lt, 3, 3)
  | .symbol .le => some (.compare .le, 3, 3)
  | .symbol .gt => some (.compare .gt, 3, 3)
  | .symbol .ge => some (.compare .ge, 3, 3)
  | .keyword .and => some (.and, 2, 2)
  | .keyword .or => some (.or, 1, 1)
  | _ => none

def unaryOf? : Token → Option UnaryOp
  | .keyword .not => some .not
  | .symbol .minus => some .neg
  | .symbol .tilde => some .bnot
  | .symbol .hash => some .len
  | _ => none

/-- The priority of operators with one operand. -/
def unaryPriority : Nat := 12

/-- A unary operator applied; the minus of a number is part of the number. -/
def applyUnary (op : UnaryOp) (e : Expr) (opLine : Nat) : Expr :=
  match op, e with
  | .neg, .constant (.int i) => .constant (.int (-i))
  | .neg, .constant (.float x) => .constant (.float x.neg)
  | _, _ => .unary op e opLine

/-- An expression whose operators bind more tightly than `limit`. -/
def subexpr (r : Nested) (limit : Nat) : Parse Expr := do
  let first ← (do
    match unaryOf? (← token) with
    | some op =>
      let opLine ← line
      next
      return applyUnary op (← r.expr unaryPriority) opLine
    | none => simple r : Parse Expr)
  repeated first fun e => do
    match Operator.ofToken? (← token) with
    | some (op, left, right) =>
      if left ≤ limit then return .inr e
      let opLine ← line
      next
      let b ← r.expr right
      match op with
      | .arith o => return .inl (.binary o e b opLine)
      | .compare o => return .inl (.compare o e b (← get).lastLine)
      | .concat =>
        match b with
        | .concat parts partsLine => return .inl (.concat (e :: parts) partsLine)
        | b => return .inl (.concat [e, b] opLine)
      | .and => return .inl (.and e b)
      | .or => return .inl (.or e b)
    | none => return .inr e

/-! ## Statements -/

/-- `if`, with its further conditions. -/
def ifStat (r : Nested) (opened : Nat) : Parse Stat := do
  next
  let cond ← r.any
  expect (.keyword .then)
  let body ← block r
  let (clauses, otherwise) ← repeated [Clause.mk cond body] fun acc => do
    match ← token with
    | .keyword .elseif =>
      next
      let cond ← r.any
      expect (.keyword .then)
      let body ← block r
      return .inl (.mk cond body :: acc)
    | .keyword .else =>
      next
      let body ← block r
      return .inr (acc.reverse, some body)
    | _ => return .inr (acc.reverse, none)
  close (.keyword .end) (.keyword .if) opened
  return .branch clauses otherwise

def whileStat (r : Nested) (opened : Nat) : Parse Stat := do
  next
  let cond ← r.any
  openBlock
  expect (.keyword .do)
  let body ← block r
  close (.keyword .end) (.keyword .while) opened
  let exit ← closeBlock true
  return .while cond body exit

def repeatStat (r : Nested) (opened : Nat) : Parse Stat := do
  next
  openBlock
  openBlock
  let base := (← fn).slots
  let stats ← statList r
  close (.keyword .until) (.keyword .repeat) opened
  let cond ← r.any
  discard (closeBlock false)
  let exit ← closeBlock true
  return .repeat (.mk base stats) cond exit

/-- Hidden variables of a loop. -/
def hiddenLocals (count : Nat) : Parse (List Nat) :=
  (List.range count).mapM fun _ => declare (bytes "(for state)") .regular

/-- The body of a loop with its variables in scope. -/
def loopBody (r : Nested) (vars : List Nat) : Parse Block := do
  openBlock
  let base := (← fn).slots
  activate vars
  let stats ← statList r
  discard (closeBlock false)
  return .mk base stats

def forStat (r : Nested) (opened : Nat) : Parse Stat := do
  openBlock
  next
  let first ← name
  match ← token with
  | .symbol .assign =>
    checkLocals 4
    let hidden ← hiddenLocals 3
    let var ← declare first .regular
    next
    let start ← r.any
    expect (.symbol .comma)
    let limit ← r.any
    let step ← if ← acceptSymbol .comma then pure (some (← r.any)) else pure none
    activate hidden
    expect (.keyword .do)
    let doLine := (← get).lastLine
    let body ← loopBody r [var]
    close (.keyword .end) (.keyword .for) opened
    let exit ← closeBlock true
    return .numericFor (hidden.headD 0) var start limit step body exit doLine
  | .symbol .comma | .keyword .in =>
    checkLocals 5
    let hidden ← hiddenLocals 4
    let one ← declare first .regular
    let vars ← repeated [one] fun acc => do
      if ← acceptSymbol .comma then
        let s ← name
        checkLocals (acc.length + 5)
        return .inl (acc ++ [← declare s .regular])
      else return .inr acc
    expect (.keyword .in)
    let values ← exprList r
    activate hidden
    expect (.keyword .do)
    let body ← loopBody r vars
    close (.keyword .end) (.keyword .for) opened
    let exit ← closeBlock true
    return .genericFor (hidden.headD 0) vars values body exit opened
  | _ => failNear (bytes "'=' or 'in' expected")

/-- `function` with a name. -/
def functionStat (r : Nested) (opened : Nat) : Parse Stat := do
  next
  let s ← name
  let target ← nameExpr s
  let target ← repeated target fun e => do
    if ← acceptSymbol .dot then
      let k ← name
      return .inl (.index e (.constant (.str k)) (← get).lastLine)
    else return .inr e
  let (target, isMethod) ← (do
    if ← acceptSymbol .colon then
      let k ← name
      return (.index target (.constant (.str k)) (← get).lastLine, true)
    else return (target, false) : Parse (Expr × Bool))
  checkAssignable (some s) target
  let f ← functionBody r isMethod opened
  return .assign [target] [.function f] opened

def localFunction (r : Nested) : Parse Stat := do
  let s ← name
  checkLocals 1
  let d ← declare s .regular
  activate [d]
  let f ← functionBody r false (← get).lastLine
  return .localFunction d f

/-- The attribute of a local variable. -/
def attrib : Parse Attrib := do
  if ← acceptSymbol .lt then
    let s ← name
    expect (.symbol .gt)
    if s == bytes "const" then return .const
    else if s == bytes "close" then return .close
    else failMeaning (bytes "unknown attribute '" ++ s ++ bytes "'")
  else return .regular

/-- Local variables with their values.  A constant variable with a constant value is no
variable at all. -/
def localStat (r : Nested) : Parse Stat := do
  let vars ← repeated ([] : List (Bytes × Attrib × Nat)) fun acc => do
    checkLocals (acc.length + 1)
    let s ← name
    let d ← declare s .regular
    let a ← attrib
    modifyFn fun f => { f with decls := f.decls.modify d fun v => { v with attrib := a } }
    if a = .close ∧ acc.any fun v => v.2.1 = .close then
      failMeaning (bytes "multiple to-be-closed variables in local list")
    if ← acceptSymbol .comma then return .inl ((s, a, d) :: acc)
    else return .inr ((s, a, d) :: acc).reverse
  let values ← if ← acceptSymbol .assign then exprList r else pure []
  let line := (← get).lastLine
  match vars.getLast?, values.getLast? with
  | some (s, .const, _), some (.constant v) =>
    if vars.length = values.length then
      let rest := vars.dropLast
      activate (rest.map (·.2.2))
      modifyFn fun f => { f with scope := (s, .constant v) :: f.scope }
      return .locals (rest.map (·.2.2)) values.dropLast line
    else
      activate (vars.map (·.2.2))
      return .locals (vars.map (·.2.2)) values line
  | _, _ =>
    activate (vars.map (·.2.2))
    return .locals (vars.map (·.2.2)) values line

def returnStat (r : Nested) : Parse Stat := do
  next
  let returnLine ← line
  let values ← (do
    if ← blockEnds true then return []
    else if (← token) = .symbol .semicolon then return []
    else exprList r : Parse (List Expr))
  discard (acceptSymbol .semicolon)
  return .return values returnLine

def isTarget : Expr → Bool
  | .variable .. | .index .. => true
  | _ => false

/-- A call or an assignment. -/
def exprStat (r : Nested) : Parse Stat := do
  let (e, shown) ← suffixed r
  match ← token with
  | .symbol .assign | .symbol .comma =>
    let check (e : Expr) (shown : Option Bytes) : Parse Unit := do
      unless isTarget e || shown.isSome do failNear (bytes "syntax error")
      checkAssignable shown e
    check e shown
    let targets ← repeated [e] fun acc => do
      if ← acceptSymbol .comma then
        let (e, shown) ← suffixed r
        check e shown
        if 200 ≤ (← get).depth + acc.length then throw ⟨none, bytes "C stack overflow", none⟩
        return .inl (e :: acc)
      else return .inr acc.reverse
    expect (.symbol .assign)
    let values ← exprList r
    return .assign targets values (← get).lastLine
  | _ =>
    match e with
    | .call .. | .method .. => return .call e
    | _ => failNear (bytes "syntax error")

/-- A label; what follows it up to the next proper statement belongs to the same place. -/
def labelStat (r : Nested) (labelLine : Nat) : Parse (List Stat) := do
  next
  let s ← name
  expect (.symbol .colon2)
  let more ← repeated ([] : List (List Stat)) fun acc => do
    match ← token with
    | .symbol .semicolon | .symbol .colon2 => return .inl ((← r.stat) :: acc)
    | _ => return .inr acc.reverse
  let f ← fn
  match (f.blocks.flatMap (·.labels)).find? fun l => l.name == s with
  | some l => failMeaning (bytes "label '" ++ s ++ bytes s!"' already defined on line {l.line}")
  | none =>
    let id ← placeLabel s labelLine (← blockEnds false)
    return more.flatten ++ [.label id]

/-- One statement; empty ones give nothing. -/
def statement (r : Nested) : Parse (List Stat) := do
  let opened ← line
  match ← token with
  | .symbol .semicolon => next; return []
  | .keyword .if => return [← ifStat r opened]
  | .keyword .while => return [← whileStat r opened]
  | .keyword .do =>
    next
    let b ← block r
    close (.keyword .end) (.keyword .do) opened
    return [.block b]
  | .keyword .for => return [← forStat r opened]
  | .keyword .repeat => return [← repeatStat r opened]
  | .keyword .function => return [← functionStat r opened]
  | .keyword .local =>
    next
    if ← accept (.keyword .function) then return [← localFunction r] else return [← localStat r]
  | .symbol .colon2 => labelStat r opened
  | .keyword .return => return [← returnStat r]
  | .keyword .break => next; return [← jump breakName opened]
  | .keyword .goto =>
    next
    let s ← name
    return [← jump s opened]
  | _ => return [← exprStat r]

/-- The parsers that may go `n` levels further in. -/
def levels : Nat → Nested
  | 0 =>
    { expr := fun _ => throw ⟨none, bytes "C stack overflow", none⟩
      stat := throw ⟨none, bytes "C stack overflow", none⟩ }
  | n + 1 =>
    let r := levels n
    { expr := fun limit => nested (subexpr r limit)
      stat := nested (statement r) }

/-- A whole script. -/
def chunk : Parse Function := do
  openFunction true #[⟨envName, true, 0, false⟩] 0
  openBlock
  let stats ← statList (levels 220)
  expect .eof
  discard (closeBlock false)
  let f ← fn
  return .mk [] true f.decls f.upvals (.mk 0 stats) f.targets f.levels 0

end Parse

/-- The tree of a script.  `depth` counts the calls that are active already. -/
def parse (source : Bytes) (depth : Nat) (known : Bytes → Option Value) :
    Except SyntaxError Function := do
  let text := source.toList
  let length := text.length
  let first ← Token.read length (length + 1) text 1
  let (f, _) ← (Parse.chunk).run ⟨first, none, 1, [], depth, length, known⟩
  return f

end ScriptBridge.Script

import ScriptBridge.Script.Access
import ScriptBridge.Script.Control
import ScriptBridge.Script.Library

/-!
# ScriptBridge.Script.Step

The steps of a script runtime: one instruction of a script function, one call, one handing over
of results, or one frame unwound.  A step never recurses into a call it makes, so that the state
between two steps is all there is to a running script.
-/

namespace ScriptBridge.Script

/-! ## Operands -/

/-- Takes the `n` operands on top as arguments, in the order they were put there, before others. -/
def takeArgs : (n : Nat) → (operands acc : List Value) → List Value × List Value
  | 0, operands, acc => (acc, operands)
  | _ + 1, [], acc => (acc, [])
  | n + 1, v :: operands, acc => takeArgs n operands (v :: acc)

/-- Puts exactly `n` values on operands; nil where there are too few. -/
def pushExactly : (n : Nat) → (values operands : List Value) → List Value
  | 0, _, operands => operands
  | n + 1, [], operands => pushExactly n [] (.nil :: operands)
  | n + 1, v :: vs, operands => pushExactly n vs (v :: operands)

namespace Activation

def push (a : Activation) (v : Value) : Activation := { a with operands := v :: a.operands }

/-- Takes over the results of a call.  The last operand of a concatenation is put back like any
other operand; going on with the concatenation is left to the machine. -/
def accept (a : Activation) (values : List Value) : Activation :=
  match a.await with
  | .exactly n => { a with operands := pushExactly n values a.operands }
  | .all => { a with spread := values }
  | .discard => a
  | .truth negate => a.push (.bool ((values.headD .nil).isTrue != negate))
  | .concat _ => a.push (values.headD .nil)
  | .beneath =>
    match a.operands with
    | top :: rest => { a with operands := top :: values.headD .nil :: rest }
    | [] => a.push (values.headD .nil)
  | .again => { a with pc := a.pc - 1 }

/-- The value of the variable at a place. -/
def valueAt (a : Activation) (m : Machine) (i : Nat) : Value :=
  match a.boxes.getD i 0 with
  | 0 => a.slots.getD i .nil
  | box => m.box box

/-- How a message calls a value; library functions give nothing away. -/
def note (a : Activation) (o : Origin) : Bytes := if a.proto.native then ∅ else o.note

end Activation

namespace Machine

/-- Goes on with a script function that was taken off the stack. -/
@[inline] def go (m : Machine) (info : FrameInfo) (a : Activation) (rest : List Frame) : Machine :=
  { m with frames := .script info a :: rest }

/-- Calls a function for a script function that was taken off the stack. -/
def callFrom (m : Machine) (info : FrameInfo) (a : Activation) (rest : List Frame) (await : Await)
    (f : Value) (args : List Value) : Machine :=
  { m with frames := .script info { a with await } :: rest, mode := .call f args }

/-- Raises an error of a script function that was taken off the stack. -/
def failFrom (m : Machine) (info : FrameInfo) (a : Activation) (rest : List Frame)
    (what : Bytes) : Machine :=
  (m.go info a rest).fail what

/-! ## Instructions that may call metamethods -/

/-- Reads a field; `await` says where it goes. -/
def readField (m : Machine) (info : FrameInfo) (a : Activation) (rest : List Frame)
    (await : Await) (object key : Value) (origin : Origin) : Machine :=
  match m.read object key with
  | .found v => m.go info ({ a with await }.accept [v]) rest
  | .method f object => m.callFrom info a rest await f [object, key]
  | .raw _ => m.go info a rest
  | .foreign object named =>
    let name := if named then a.note origin else ∅
    m.failFrom info a rest
      (bytes "attempt to index a " ++ m.typeName object ++ bytes " value" ++ name)
  | .endless => m.failFrom info a rest (bytes "'__index' chain too long; possibly a loop")

/-- Writes a field. -/
def writeField (m : Machine) (info : FrameInfo) (a : Activation) (rest : List Frame)
    (object key v : Value) (origin : Origin) : Machine :=
  match m.write object key with
  | .raw id =>
    match keyFault? key with
    | some what => m.failFrom info a rest (bytes what)
    | none => (m.go info a rest).rawSet id key v
  | .method f object => m.callFrom info a rest .discard f [object, key, v]
  | .found _ => m.go info a rest
  | .foreign object named =>
    let name := if named then a.note origin else ∅
    m.failFrom info a rest
      (bytes "attempt to index a " ++ m.typeName object ++ bytes " value" ++ name)
  | .endless => m.failFrom info a rest (bytes "'__newindex' chain too long; possibly a loop")

def binaryOp (m : Machine) (info : FrameInfo) (a : Activation) (rest : List Frame) (op : BinaryOp)
    (x y : Value) (originX originY : Origin) : Machine :=
  match Arithmetic.binary op x y with
  | .value v => m.go info (a.push v) rest
  | .failed what => m.failFrom info a rest (bytes what)
  | .foreign =>
    match m.operatorMethod ("__" ++ op.event) x y with
    | .nil => m.failFrom info a rest (m.operandFault op x y (a.note originX) (a.note originY))
    | f => m.callFrom info a rest (.exactly 1) f [x, y]

def unaryOp (m : Machine) (info : FrameInfo) (a : Activation) (rest : List Frame) (op : UnaryOp)
    (x : Value) (origin : Origin) : Machine :=
  let method (fault : Unit → Bytes) : Machine :=
    match m.metafield x ("__" ++ op.event) with
    | .nil => m.failFrom info a rest (fault ())
    | f => m.callFrom info a rest (.exactly 1) f [x, x]
  match op with
  | .not => m.go info (a.push (.bool !x.isTrue)) rest
  | .neg =>
    match x with
    | .int i => m.go info (a.push (.int (-i))) rest
    | .float x => m.go info (a.push (.float x.neg)) rest
    | _ => method fun _ => m.operandFault .add x x (a.note origin) (a.note origin)
  | .bnot =>
    match Arithmetic.whole? x with
    | some i => m.go info (a.push (.int (~~~i))) rest
    | none => method fun _ => m.operandFault .band x x (a.note origin) (a.note origin)
  | .len =>
    match m.length? x with
    | some n => m.go info (a.push (.int (Int64.ofNat n))) rest
    | none => method fun _ =>
        bytes "attempt to get length of a " ++ m.typeName x ++ bytes " value" ++ a.note origin

def compareOp (m : Machine) (info : FrameInfo) (a : Activation) (rest : List Frame)
    (op : Comparison) (x y : Value) : Machine :=
  let answer (b : Bool) : Machine := m.go info (a.push (.bool b)) rest
  let equality (negate : Bool) : Machine :=
    if x.rawEqual y then answer !negate
    else
      match m.equalityMethod x y with
      | .nil => answer negate
      | f => m.callFrom info a rest (.truth negate) f [x, y]
  let order (known? : Option Bool) (event : String) (x y : Value) : Machine :=
    match known? with
    | some b => answer b
    | none =>
      match m.operatorMethod event x y with
      | .nil => m.failFrom info a rest (m.orderFault x y)
      | f => m.callFrom info a rest (.truth false) f [x, y]
  match op with
  | .eq => equality false
  | .ne => equality true
  | .lt => order (Arithmetic.less? x y) "__lt" x y
  | .le => order (Arithmetic.lessEq? x y) "__le" x y
  | .gt => order (Arithmetic.less? y x) "__lt" y x
  | .ge => order (Arithmetic.lessEq? y x) "__le" y x

/-- Concatenates the `n` operands below the last one with it, from the right. -/
def concatOperands (m : Machine) (info : FrameInfo) (a : Activation) (rest : List Frame)
    (origins : List Origin) : (n : Nat) → (last : Value) → Machine
  | 0, last => m.go info (a.push last) rest
  | n + 1, last =>
    match a.operands with
    | [] => m.go info (a.push last) rest
    | x :: operands =>
      match x.text?, last.text? with
      | some s, some t =>
        concatOperands m info { a with operands } rest origins n (.str (s ++ t))
      | textX, _ =>
        let a := { a with operands }
        match m.operatorMethod "__concat" x last with
        | .nil =>
          let (culprit, place) := if textX.isSome then (last, n + 1) else (x, n)
          let origin := origins.getD place .unknown
          m.failFrom info a rest (bytes "attempt to concatenate a " ++ m.typeName culprit
            ++ bytes " value" ++ a.note origin)
        | f => m.callFrom info a rest (.concat n) f [x, last]

/-! ## Loops and variables -/

/-- Begins a counting loop with its variables in place, or skips it. -/
def forPrep (m : Machine) (info : FrameInfo) (a : Activation) (rest : List Frame)
    (slot exit : Nat) (start limit step : Value) : Machine :=
  let begin (first bound step : Value) : Machine :=
    let slots := a.slots
    let a := { a with slots := #[] }
    let slots := slots.setIfInBounds slot first
    let slots := slots.setIfInBounds (slot + 1) bound
    let slots := slots.setIfInBounds (slot + 2) step
    m.go info ({ a with slots := slots }.push first) rest
  match Arithmetic.loopStart start limit step with
  | .never => m.go info { a with pc := exit } rest
  | .ints first step rounds => begin (.int first) (.int (Int64.ofNat rounds)) (.int step)
  | .floats first limit step => begin (.float first) (.float limit) (.float step)
  | .failed what none => m.failFrom info a rest (bytes what)
  | .failed what (some culprit) =>
    m.failFrom info a rest
      (bytes s!"bad 'for' {what} (number expected, got " ++ m.typeName culprit ++ bytes ")")

/-- Goes on with the next round of a counting loop, if there is one. -/
def forLoop (m : Machine) (info : FrameInfo) (a : Activation) (rest : List Frame)
    (slot body : Nat) : Machine :=
  match a.slots.getD slot .nil, a.slots.getD (slot + 1) .nil, a.slots.getD (slot + 2) .nil with
  | .int i, .int rounds, .int step =>
    if rounds = 0 then m.go info a rest
    else
      let slots := a.slots
      let a := { a with slots := #[] }
      let slots := slots.setIfInBounds slot (.int (i + step))
      let slots := slots.setIfInBounds (slot + 1) (.int (rounds - 1))
      m.go info { a with slots := slots, pc := body, operands := .int (i + step) :: a.operands } rest
  | .float x, .float limit, .float step =>
    let x := x.add step
    let within := if Binary64.less .zero step then x.lessEq limit else limit.lessEq x
    if within then
      let slots := a.slots
      let a := { a with slots := #[] }
      let slots := slots.setIfInBounds slot (.float x)
      m.go info { a with slots := slots, pc := body, operands := .float x :: a.operands } rest
    else m.go info a rest
  | _, _, _ => m.go info a rest

/-- Places from `i` on, `n` of them, forgotten. -/
def forgetSlots : (n i : Nat) → Array Value → Array Value
  | 0, _, slots => slots
  | n + 1, i, slots => forgetSlots n (i + 1) (slots.setIfInBounds i .nil)

def forgetBoxes : (n i : Nat) → Array BoxId → Array BoxId
  | 0, _, boxes => boxes
  | n + 1, i, boxes => forgetBoxes n (i + 1) (boxes.setIfInBounds i 0)

/-- Closes the latest variable that is to be closed; the instruction is done once more, until
there is none left. -/
def closeLatest (m : Machine) (info : FrameInfo) (a : Activation) (rest : List Frame) (v : Value)
    (closers : List (Nat × Value)) : Machine :=
  m.callFrom info { a with closers } rest .again (m.metafield v "__close") [v, .nil]

/-! ## Instructions -/

/-- Carries out an instruction of a script function that was taken off the stack. -/
def exec (m : Machine) (info : FrameInfo) (a : Activation) (rest : List Frame) (i : Instr) :
    Machine :=
  match i with
  | .push v => m.go info (a.push v) rest
  | .pop n => m.go info { a with operands := a.operands.drop n } rest
  | .slot i => m.go info (a.push (a.slots.getD i .nil)) rest
  | .setSlot i =>
    match a.operands with
    | v :: operands =>
      m.go info { a with operands, slots := a.slots.setIfInBounds i v } rest
    | [] => m.go info a rest
  | .boxed i => m.go info (a.push (m.box (a.boxes.getD i 0))) rest
  | .setBoxed i =>
    match a.operands with
    | v :: operands =>
      let box := a.boxes.getD i 0
      (m.setBox box v).go info { a with operands } rest
    | [] => m.go info a rest
  | .newBox i =>
    match a.operands with
    | v :: operands =>
      let (box, m) := m.newBox v
      m.go info { a with operands, boxes := a.boxes.setIfInBounds i box } rest
    | [] => m.go info a rest
  | .upval i => m.go info (a.push (m.box (a.upvals.getD i 0))) rest
  | .setUpval i =>
    match a.operands with
    | v :: operands =>
      let box := a.upvals.getD i 0
      (m.setBox box v).go info { a with operands } rest
    | [] => m.go info a rest
  | .index origin =>
    match a.operands with
    | key :: object :: operands =>
      m.readField info { a with operands } rest (.exactly 1) object key origin
    | _ => m.go info a rest
  | .field key origin =>
    match a.operands with
    | object :: operands =>
      m.readField info { a with operands } rest (.exactly 1) object (.str key) origin
    | [] => m.go info a rest
  | .method key origin =>
    match a.operands with
    | object :: _ => m.readField info a rest .beneath object (.str key) origin
    | [] => m.go info a rest
  | .store depth origin =>
    match a.operands with
    | v :: operands =>
      let key := operands.getD depth .nil
      let object := operands.getD (depth + 1) .nil
      m.writeField info { a with operands } rest object key v origin
    | [] => m.go info a rest
  | .newTable =>
    let (id, m) := m.newTable .empty
    m.go info (a.push (.table id)) rest
  | .setItem =>
    match a.operands with
    | v :: key :: .table id :: operands =>
      let a := { a with operands := .table id :: operands }
      match keyFault? key with
      | some what => m.failFrom info a rest (bytes what)
      | none => (m.rawSet id key v).go info a rest
    | _ => m.go info a rest
  | .append start count spread =>
    let (vs, operands) := takeArgs count a.operands (if spread then a.spread else [])
    match operands with
    | .table id :: _ =>
      let m := m.modifyTable id fun t => t.place start vs
      m.go info { a with operands, spread := [] } rest
    | _ => m.go info a rest
  | .binary op originX originY =>
    match a.operands with
    | y :: x :: operands => m.binaryOp info { a with operands } rest op x y originX originY
    | _ => m.go info a rest
  | .unary op origin =>
    match a.operands with
    | x :: operands => m.unaryOp info { a with operands } rest op x origin
    | [] => m.go info a rest
  | .concat n origins =>
    match a.operands with
    | last :: operands => m.concatOperands info { a with operands } rest origins (n - 1) last
    | [] => m.go info a rest
  | .compare op =>
    match a.operands with
    | y :: x :: operands => m.compareOp info { a with operands } rest op x y
    | _ => m.go info a rest
  | .jump target => m.go info { a with pc := target } rest
  | .jumpUnless target =>
    match a.operands with
    | v :: operands =>
      m.go info (if v.isTrue then { a with operands } else { a with operands, pc := target }) rest
    | [] => m.go info a rest
  | .andJump target =>
    match a.operands with
    | v :: operands =>
      m.go info (if v.isTrue then { a with operands } else { a with pc := target }) rest
    | [] => m.go info a rest
  | .orJump target =>
    match a.operands with
    | v :: operands =>
      m.go info (if v.isTrue then { a with pc := target } else { a with operands }) rest
    | [] => m.go info a rest
  | .call n spread want _ =>
    let (args, operands) := takeArgs n a.operands (if spread then a.spread else [])
    match operands with
    | f :: operands =>
      let await : Await := match want with
        | .exactly n => .exactly n
        | .all => .all
      m.callFrom info { a with operands, spread := [] } rest await f args
    | [] => m.go info a rest
  | .tailCall n spread _ =>
    let (args, operands) := takeArgs n a.operands (if spread then a.spread else [])
    match operands with
    | f :: operands =>
      match m.target chainLimit f args with
      | (.closure id, args) =>
        if (m.closure id).proto.native then
          m.callFrom info { a with operands, spread := [] } rest .all (.closure id) args
        else { m with frames := rest, mode := .call (.closure id) args }
      | _ => m.callFrom info { a with operands, spread := [] } rest .all f args
    | [] => m.go info a rest
  | .leave n spread =>
    match a.closers with
    | [] =>
      let (vs, _) := takeArgs n a.operands (if spread then a.spread else [])
      { m with frames := rest, mode := .deliver vs }
    | (_, v) :: closers => m.closeLatest info a rest v closers
  | .vararg want =>
    match want with
    | .exactly n =>
      m.go info { a with operands := pushExactly n a.varargs a.operands } rest
    | .all => m.go info { a with spread := a.varargs } rest
  | .closure i =>
    let proto := a.proto.protos.getD i default
    let upvals := proto.captures.map fun c =>
      if c.fromBox then a.boxes.getD c.index 0 else a.upvals.getD c.index 0
    let (id, m) := m.newClosure ⟨proto, upvals⟩
    m.go info (a.push (.closure id)) rest
  | .forPrep slot exit =>
    match a.operands with
    | step :: limit :: start :: operands =>
      m.forPrep info { a with operands } rest slot exit start limit step
    | _ => m.go info a rest
  | .forLoop slot body => m.forLoop info a rest slot body
  | .forTest slot vars exit =>
    match a.operands.getD (vars - 1) .nil with
    | .nil => m.go info { a with operands := a.operands.drop vars, pc := exit } rest
    | v => m.go info { a with slots := a.slots.setIfInBounds (slot + 2) v } rest
  | .markClose slot name =>
    let v := a.valueAt m slot
    if !v.isTrue then m.go info a rest
    else if (m.metafield v "__close").isNil then
      m.failFrom info a rest
        (bytes "variable '" ++ name ++ bytes "' got a non-closable value")
    else m.go info { a with closers := (slot, v) :: a.closers } rest
  | .closeFrom slot =>
    match a.closers with
    | [] => m.go info a rest
    | (place, v) :: closers =>
      if slot ≤ place then m.closeLatest info a rest v closers else m.go info a rest
  | .clear slot =>
    let n := a.slots.size - slot
    m.go info { a with
      slots := forgetSlots n slot a.slots
      boxes := forgetBoxes n slot a.boxes } rest

/-- Goes on with the top frame. -/
def runStep (m : Machine) : Machine :=
  let frames := m.frames
  let m := { m with frames := [] }
  match frames with
  | .script info a :: rest =>
    let pc := a.pc
    let i := a.proto.code.getD pc (.leave 0 false)
    m.exec info { a with pc := pc + 1 } rest i
  | frames => { m with frames := frames, mode := .paused .closed }

/-! ## Handing over results -/

/-- Ends a collection, or the closing of the runtime.  A collection that nobody asked for gives
no results: a script goes on where it was, and the host is told. -/
def endCollection (m : Machine) (task : Task) (rest : List Frame) : Machine :=
  if m.closing then { m with frames := rest, mode := .paused .closed }
  else
    let m := { m with frames := rest, collecting := false }
    match task, rest with
    | .sweeping _, .script .. :: _ => { m with mode := .run }
    | .sweeping _, _ => { m with mode := .paused .swept }
    | _, _ => m.deliver [.int 0]

/-- Goes on with finalizers that are due; when there is none left, or enough have been called,
that was all. -/
def finalizeNext (m : Machine) (info : FrameInfo) (task : Task) (rest : List Frame) : Machine :=
  match m.due, task.next? with
  | object :: due, some task =>
    let f := m.metafield object.value "__gc"
    let mark : Frame := .mark ⟨info.base, info.depth, true⟩ .finalizer
    let waiting : Frame := .library info task
    if f.isNil then { m with due := due, frames := waiting :: rest, mode := .deliver [] }
    else
      { m with
        due := due
        frames := mark :: waiting :: rest
        mode := .call f [object.value] }
  | _, _ => m.endCollection task rest

/-- Hands results to the top frame. -/
def deliverStep (m : Machine) (values : List Value) : Machine :=
  let frames := m.frames
  let m := { m with frames := [], mode := .run }
  match frames with
  | .script info a :: rest =>
    match a.await with
    | .concat n =>
      let origins := match a.proto.code.getD (a.pc - 1) (.pop 0) with
        | .concat _ origins => origins
        | _ => []
      m.concatOperands info a rest origins n (values.headD .nil)
    | _ => m.go info (a.accept values) rest
  | .library info task :: rest =>
    match task with
    | .guarded _ => { m with frames := rest }.deliver (.bool true :: values)
    | .resuming _ | .wrapping _ => { m with frames := .library info task :: rest }.rewardResumer values
    | .firstResults n => { m with frames := rest }.deliver (pushExactly n values []).reverse
    | .textResult =>
      let m := { m with frames := rest }
      match (values.headD .nil).text? with
      | some s => m.deliver [.str s]
      | none =>
        m.raiseAt info.depth (.str (m.libraryError (bytes "'__tostring' must return a string")))
    | .collecting | .sweeping _ => { m with mode := .deliver values }.finalizeNext info task rest
  | .mark info kind :: rest =>
    match kind with
    | .coroutine =>
      ({ m with frames := .mark info kind :: rest }.leaveCoroutine .dead []).rewardResumer values
    | .fromHost =>
      match rest with
      | .host info upvalue operands :: rest =>
        { m with
          frames := .host info upvalue (values.reverse ++ operands) :: rest
          mode := .paused .returned }
      | rest => { m with frames := rest, mode := .paused .returned }
    | .finalizer => { m with frames := rest }.deliver []
    | .handling => { m with frames := rest }.unwind (values.headD .nil)
    | .closing error => { m with frames := rest }.unwind error
  | frames => { m with frames := frames, mode := .paused .closed }

/-! ## Calls -/

/-- Goes on with what a library function came to; the arguments of the last parameters say how
calls from it nest. -/
def answer (m : Machine) (reply : Reply) (depth : Nat) (fixed : Bool) : Machine :=
  let below (task : Task) : Frame := .library ⟨m.stackTop + 1, depth, fixed⟩ task
  match reply with
  | .values vs => m.deliver vs
  | .call task f args => (m.push (below task)).invoke f args
  | .resume task co args => m.resume task co args depth fixed
  | .yield args => m.yield args depth fixed
  | .collect => { m.push (below .collecting) with collecting := true, mode := .paused .collecting }
  | .release target => { m with mode := .paused (.releasing target) }

/-- Runs a library function that goes by a name where the calling code has none. -/
def perform (m : Machine) (name : Bytes) (act : Act Reply) (count depth : Nat) (fixed : Bool) :
    Machine :=
  let limit := if m.overflowed then stackLimit + stackReserve - 1 else stackLimit
  if limit < m.stackTop + 1 + count + librarySlots then m.overflow
  else
    match act.run.run m with
    | (.ok reply, m) => m.answer reply depth fixed
    | (.error fault, m) => m.raiseAt depth (fault.value m name)
where
  /-- The stack slots a library function is promised. -/
  librarySlots : Nat := 20

/-- Calls a function that is not a script's. -/
def callNative (m : Machine) (id : NativeId) (args : List Value) (depth : Nat) (fixed : Bool) :
    Machine :=
  let n := m.native id
  match n.kind with
  | .host =>
    let frame : Frame :=
      .host ⟨m.stackTop + 1, depth, fixed⟩ (n.upvalues.getD 0 .nil) args.reverse
    { m.push frame with mode := .paused .invoked }
  | .wrap =>
    match n.upvalues.getD 0 .nil with
    | .thread co => m.resume (.wrapping co) co args depth fixed
    | _ => m.raiseAt depth (.str (m.libraryError (bytes "cannot resume dead coroutine")))
  | .matches .. => m.perform (bytes "?") (Library.nextMatch id) args.length depth fixed

/-- Calls a value. -/
def callStep (m : Machine) (f : Value) (args : List Value) : Machine :=
  match m.frames with
  | [] => { m with mode := .paused .closed }
  | top :: _ =>
    let (depth, fixed) := top.calleeNesting
    let deeper : Bool := top.info.depth < depth
    if deeper && depth == depthLimit then
      m.raiseAt depth (.str (m.operationError (bytes "C stack overflow")))
    else if deeper && hopelessDepth ≤ depth then m.unwind hopelessError
    else
      match f with
      | .closure id => m.enterScript id args depth fixed
      | .builtin b => m.perform b.qualified (b.act args) args.length depth fixed
      | .inert name =>
        m.raiseAt depth (.str (m.libraryError (bytes s!"'{name}' is not supported")))
      | .native id => m.callNative id args depth fixed
      | v =>
        match m.metafield v "__call" with
        | .nil =>
          m.fail (bytes "attempt to call a " ++ m.typeName v ++ bytes " value"
            ++ (calleeOrigin m.frames).note)
        | g => m.invoke g (v :: args)

/-- One step of the machine.  A machine that is paused stays as it is. -/
def step (m : Machine) : Machine :=
  match m.mode with
  | .run => m.runStep
  | .call f args => m.callStep f args
  | .deliver values => m.deliverStep values
  | .unwind error => m.unwindStep error
  | .paused _ => m

/-- Why the machine waits, if it does. -/
def pause? (m : Machine) : Option Pause :=
  match m.mode with
  | .paused p => some p
  | _ => none

/-- Steps until the machine pauses, at most `fuel` of them. -/
def run : (fuel : Nat) → Machine → Machine
  | 0, m => m
  | fuel + 1, m =>
    match m.mode with
    | .paused _ => m
    | _ => run fuel m.step

end Machine

end ScriptBridge.Script

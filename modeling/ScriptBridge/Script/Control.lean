import ScriptBridge.Script.Report

/-!
# ScriptBridge.Script.Control

How control moves between frames: entering functions, raising errors and unwinding to the frame
that catches them, and switching between coroutines.

An error is raised in two stages.  `raise` looks for the frame that will catch it; if that frame
has a message handler, the handler is called first, on top of the frames that failed.  After
that the machine unwinds: it takes frames away one at a time, closing their variables, until it
gets to the catching frame.
-/

namespace ScriptBridge.Script

/-! ## What frames do to the calls made from them -/

/-- Whether errors go no further than a frame. -/
def Frame.catches : Frame → Bool
  | .library _ (.guarded _) => true
  | .mark _ .fromHost => true
  | .mark _ .finalizer => true
  | _ => false

/-- The message handler that a frame applies to errors. -/
def Frame.handler? : Frame → Option Value
  | .library _ (.guarded handler) => handler
  | _ => none

/-- Whether an instruction calls a function as the script says, and not for a metamethod. -/
def Instr.isCall : Instr → Bool
  | .call _ _ _ .forIterator => false
  | .call .. | .tailCall .. => true
  | _ => false

/-- How deep a call made from a frame nests, and whether it cannot be left by yielding. -/
def Frame.calleeNesting : Frame → Nat × Bool
  | .script info a =>
    if a.proto.native then (info.depth + 1, true)
    else if (a.proto.code.getD (a.pc - 1) (.pop 0)).isCall then (info.depth, info.fixed)
    else (info.depth + 1, info.fixed)
  | .library info (.guarded _) => (info.depth + 1, info.fixed)
  | .library info (.firstResults _) => (info.depth + 1, info.fixed)
  | .library info _ => (info.depth + 1, true)
  | .host info _ _ => (info.depth + 1, true)
  | .mark info .coroutine => (info.depth, false)
  | .mark info (.closing _) => (info.depth + 1, info.fixed)
  | .mark info _ => (info.depth + 1, true)

/-- A frame with its record changed. -/
def Frame.withInfo (change : FrameInfo → FrameInfo) : Frame → Frame
  | .script info a => .script (change info) a
  | .library info task => .library (change info) task
  | .host info upvalue operands => .host (change info) upvalue operands
  | .mark info m => .mark (change info) m

/-- How deep calls nest when even errors about their depth are not handled any more. -/
def hopelessDepth : Nat := 220

namespace Machine

/-- Hands results to the top frame. -/
def deliver (m : Machine) (values : List Value) : Machine := { m with mode := .deliver values }

/-- Calls a function; its results go to the top frame. -/
def invoke (m : Machine) (f : Value) (args : List Value) : Machine :=
  { m with mode := .call f args }

/-- Takes the top frame away. -/
def pop (m : Machine) : Machine := { m with frames := m.frames.drop 1 }

/-! ## Coroutines -/

/-- Goes back from the running coroutine, which keeps a status and frames, to the one that
resumed it. -/
def leaveCoroutine (m : Machine) (status : ThreadStatus) (frames : List Frame) : Machine :=
  let co := m.current
  let resumer := ((m.thread co).resumer).getD main
  let m := m.setThread co ⟨status, frames, none⟩
  let r := m.thread resumer
  let m := m.setThread resumer { r with frames := [] }
  { m with current := resumer, frames := r.frames }

/-! ## Errors -/

/-- Raises an error without a message handler. -/
def unwind (m : Machine) (error : Value) : Machine := { m with mode := .unwind error }

/-- Whether the running coroutine was resumed by a function that reports its errors. -/
def isReported (m : Machine) : Bool :=
  m.current != main &&
    match (m.thread (((m.thread m.current).resumer).getD main)).frames with
    | .library _ (.resuming _) :: _ => true
    | _ => false

/-- Raises an error at a nesting depth.  A coroutine that nothing in it can save and that was
resumed dies at once and keeps its frames. -/
def raiseAt (m : Machine) (depth : Nat) (error : Value) : Machine :=
  match m.frames.find? Frame.catches with
  | some catcher =>
    match catcher.handler? with
    | some handler =>
      let mark : Frame := .mark ⟨m.stackTop, depth, true⟩ .handling
      { m with frames := mark :: m.frames, mode := .call handler [error] }
    | none => m.unwind error
  | none =>
    if m.isReported then
      let frames := m.frames
      (m.leaveCoroutine .dead frames).pop.deliver [.bool false, error]
    else m.unwind error

/-- Raises an error of the top frame. -/
def raise (m : Machine) (error : Value) : Machine := m.raiseAt m.topInfo.depth error

/-- Hands an error to the frame that waits for a coroutine.  A wrapped coroutine passes its
errors on, a text with the place of the call put in front. -/
def failResumer (m : Machine) (error : Value) : Machine :=
  match m.frames with
  | .library info (.wrapping _) :: rest =>
    let error := match error with
      | .str s => .str (placeAt 1 rest ++ s)
      | v => v
    { m with frames := rest }.raiseAt info.depth error
  | _ => m.pop.deliver [.bool false, error]

/-- Raises an error with a text, about an operation of the running function. -/
def fail (m : Machine) (what : Bytes) : Machine := m.raise (.str (m.operationError what))

/-- The error of an error that cannot be handled. -/
def hopelessError : Value := .str (bytes "error in error handling")

/-- Raises the error of a stack that is full; from then on it has some space more, for
handling the error. -/
def overflow (m : Machine) : Machine :=
  if m.overflowed then m.unwind hopelessError
  else { m with overflowed := true }.fail (bytes "stack overflow")

/-- Takes the top frame away, or stops there if it catches the error. -/
def unwindStep (m : Machine) (error : Value) : Machine :=
  match m.frames with
  | .script info a :: rest =>
    match a.closers with
    | [] => { m with frames := rest }
    | (_, v) :: closers =>
      let below : Frame := .script info { a with closers }
      let mark : Frame := .mark ⟨below.top, info.depth, info.fixed⟩ (.closing error)
      { m with
        frames := mark :: below :: rest
        mode := .call (m.metafield v "__close") [v, error] }
  | .library _ (.guarded _) :: rest =>
    { m with frames := rest, overflowed := false, mode := .deliver [.bool false, error] }
  | .library .. :: rest => { m with frames := rest }
  | .host .. :: rest => { m with frames := rest }
  | .mark _ .fromHost :: .host info upvalue operands :: rest =>
    { m with
      frames := .host info upvalue (error :: operands) :: rest
      overflowed := false
      mode := .paused .raised }
  | .mark _ .finalizer :: rest =>
    { m with frames := rest, overflowed := false, mode := .deliver [] }
  | .mark _ .coroutine :: _ => (m.leaveCoroutine .dead []).failResumer error
  | .mark .. :: rest => { m with frames := rest }
  | [] => { m with mode := .paused .raised }

/-! ## Calls -/

/-- Puts values into places from `i` on; nil where there are too few. -/
def fillSlots : (count i : Nat) → List Value → Array Value → Array Value
  | 0, _, _, slots => slots
  | _, _, [], slots => slots
  | count + 1, i, v :: vs, slots => fillSlots count (i + 1) vs (slots.setIfInBounds i v)

/-- Puts the frame of a script function on the stack. -/
def enterScript (m : Machine) (id : ClosureId) (args : List Value) (depth : Nat) (fixed : Bool) :
    Machine :=
  let c := m.closure id
  let p := c.proto
  let count := args.length
  let base := m.stackTop + 1
  let limit := if m.overflowed then stackLimit + stackReserve - 1 else stackLimit
  let needed := base + count + p.size + if p.vararg then count + 1 else 0
  if limit < needed then m.overflow
  else
    let info : FrameInfo := ⟨if p.vararg then base + count + 1 else base, depth, fixed⟩
    let a : Activation := {
      closure := id
      proto := p
      upvals := c.upvals
      pc := 0
      slots := fillSlots p.params 0 args (Array.replicate p.slots .nil)
      boxes := Array.replicate p.slots 0
      operands := []
      spread := []
      varargs := if p.vararg then args.drop p.params else []
      closers := []
      await := .discard }
    { m with frames := .script info a :: m.frames, mode := .run }

/-- The function that stands behind a value called with arguments: what is not a function is
called through its metamethod, and becomes the first argument. -/
def target (m : Machine) : (fuel : Nat) → Value → List Value → Value × List Value
  | 0, f, args => (f, args)
  | fuel + 1, f, args =>
    if f.kind = .function then (f, args)
    else
      match m.metafield f "__call" with
      | .nil => (f, args)
      | g => target m fuel g (f :: args)

/-- Resumes a coroutine for a library function that then goes on with `task`. -/
def resume (m : Machine) (task : Task) (co : ThreadId) (args : List Value) (depth : Nat)
    (fixed : Bool) : Machine :=
  let t := m.thread co
  let refused (what : String) : Machine :=
    let m := m.push (.library ⟨m.stackTop + 1, depth, fixed⟩ task)
    m.failResumer (.str (bytes what))
  if co = m.current then refused "cannot resume non-suspended coroutine"
  else
    match t.status with
    | .active => refused "cannot resume non-suspended coroutine"
    | .dead => refused "cannot resume dead coroutine"
    | .fresh body =>
      if depthLimit ≤ depth then refused "C stack overflow"
      else
        let m := enterCoroutine m
        { m with
          frames := [.mark ⟨1, depth + 1, false⟩ .coroutine]
          mode := .call body args }
    | .suspended =>
      if depthLimit ≤ depth then refused "C stack overflow"
      else
        let m := enterCoroutine m
        { m with
          frames := t.frames.map (Frame.withInfo fun i => ⟨i.base, depth + 1, false⟩)
          mode := .deliver args }
where
  /-- Makes the coroutine the running one; its frames are still to be set. -/
  enterCoroutine (m : Machine) : Machine :=
    let resumer := m.current
    let frames := .library ⟨m.stackTop + 1, depth, fixed⟩ task :: m.frames
    let r := m.thread resumer
    let m := m.setThread resumer { r with frames := frames }
    let m := m.setThread co ⟨.active, [], some resumer⟩
    { m with current := co, frames := [] }

/-- Hands the results of a coroutine to the frame that waits for it. -/
def rewardResumer (m : Machine) (values : List Value) : Machine :=
  match m.frames with
  | .library _ (.wrapping _) :: rest => { m with frames := rest }.deliver values
  | _ => m.pop.deliver (.bool true :: values)

/-- Leaves the running coroutine until it is resumed. -/
def yield (m : Machine) (values : List Value) (depth : Nat) (fixed : Bool) : Machine :=
  if m.current = main then
    m.raiseAt depth (.str (bytes "attempt to yield from outside a coroutine"))
  else if fixed then
    m.raiseAt depth (.str (bytes "attempt to yield across a C-call boundary"))
  else
    let frames := m.frames
    (m.leaveCoroutine .suspended frames).rewardResumer values

end Machine

end ScriptBridge.Script

import ScriptBridge.Host.World

/-!
# ScriptBridge.Host.Eval

Making values, lists, callables and failures as programs describe them.  What was made before a
part that fails is lost.
-/

namespace ScriptBridge.Host

namespace World

/-- The failure that a program writes down; new session numbers are taken from the world. -/
def failure : FailureExpr → Try Failure
  | .plain f => return f
  | .wrongSession => do
    let expected ← freshSessionId
    let found ← freshSessionId
    return .wrongSession expected found
  | .marshal index source => return .marshalFailure index (← failure source)
  | .malformed => throw (.misuse .badInput)

/-- A second reference to the same script value. -/
def reanchor (ref : Ref) : Try Ref := do
  match ← attemptOn ref.session (Session.reanchor ref) with
  | .ok copy => return copy
  | .error f => throw (.failure f)

/-- A copy of a value: references get a cell of their own, a callable gets an owner more. -/
def copy : Value → Try Value
  | .reference ref => return .reference (← reanchor ref)
  | .function ref => return .function (← reanchor ref)
  | .callable id => do
    retain id
    return .callable id
  | v => return v

/-- The callable defined under a name. -/
def definedCallable (name : String) : Try CallableId := do
  match (← get).defined[name]? with
  | some id => return id
  | none => throw (.misuse .emptySlot)

mutual

/-- Makes a value. -/
def value : ValueExpr → Try Value
  | .constant c => return c.value
  | .take slot => takeSlot slot
  | .dup slot => do
    let (_, s) ← filledSlot slot
    copy s.value
  | .callable f => return .callable (← callable f)
  | .named name => do
    let id ← definedCallable name
    retain id
    return .callable id
  | .malformed => throw (.misuse .badInput)

/-- Makes a callable with the values it captures. -/
def callable : CallableExpr → Try CallableId
  | .mk name body results captures watched quiet => do
    let captured ← captureAll captures ∅
    newCallable (.mk name body results [] watched quiet) captured
  | .malformed => throw (.misuse .badInput)

/-- Makes values to be captured, into slots. -/
def captureAll : List (String × ValueExpr) → Slots → Try Slots
  | [], slots => return slots
  | (name, e) :: rest, slots => do
    let v ← tryCatch (value e) fun mishap => do
      dropSlots slots
      throw mishap
    dropValues ((slots["^" ++ name]?).toList.map Slot.value)
    captureAll rest (slots.insert ("^" ++ name) ⟨v, 0⟩)

end

/-- The values of the frame's argument slots from a position on. -/
def splatFrom : (fuel position : Nat) → (taken : List Value) → Try (List Value)
  | 0, _, taken => return taken.reverse
  | fuel + 1, position, taken => do
    let name := argumentName position
    let w ← get
    match w.locate name with
    | none => return taken.reverse
    | some place =>
      match w.slotAt place with
      | none => return taken.reverse
      | some _ =>
        let v ← tryCatch (takeSlot name) fun mishap => do
          dropValues taken.reverse
          throw mishap
        splatFrom fuel (position + 1) (v :: taken)

/-- How many slots the frame has. -/
def frameSize (w : World) : Nat :=
  match w.frame? with
  | some f => f.slots.size
  | none => 0

/-- The values of a part of a list, each with the slot it is lent from. -/
def item : ItemExpr → Try (List (Value × Option String))
  | .one e => return [(← value e, none)]
  | .nils count => return List.replicate count (.nil, none)
  | .splat first => do
    let vs ← splatFrom (← get).frameSize first []
    return vs.map fun v => (v, none)
  | .lend slot => return [(← takeSlot slot, some slot)]

/-- The values of a list; `done` are those made before, the latest first. -/
def itemsFrom : (done : List (Value × Option String)) → List ItemExpr →
    Try (List (Value × Option String))
  | done, [] => return done.reverse
  | done, e :: rest => do
    let vs ← tryCatch (item e) fun mishap => do
      dropValues (done.reverse.map (·.1))
      throw mishap
    itemsFrom (vs.reverse ++ done) rest

/-- The values of a list. -/
def items (es : List ItemExpr) : Try (List (Value × Option String)) := itemsFrom [] es

/-! ## Extraction -/

/-- Reads a value as a type. -/
def extractAs : Extraction → Value → Except Mishap (Extracted × Option Value)
  | .number, v => lift (v.toNumber.map fun x => (.view (.number x), none))
  | .integer, v => lift (v.toInt.map fun i => (.integer i, none))
  | .boolean, v => lift (v.toBool.map fun b => (.view (.boolean b), none))
  | .text, v => lift (v.toText.map fun s => (.view (.text s), none))
  | .reference, v => lift (v.toRef.map fun ref => kept (.reference ref))
  | .function, v => lift (v.toFunction.map fun ref => kept (.function ref))
  | .value, v => .ok (kept v)
  | .optional of, v =>
    match v with
    | .nil => .ok (.absent, none)
    | v => extractAs of v
  | .malformed, _ => .error (.misuse .badInput)
where
  lift {α : Type} (r : Except Failure α) : Except Mishap α := r.mapError Mishap.failure
  kept (v : Value) : Extracted × Option Value := (.view (.ofValue v), some v)

end World

end ScriptBridge.Host

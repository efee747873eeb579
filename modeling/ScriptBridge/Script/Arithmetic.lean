import ScriptBridge.Script.Numeral
import ScriptBridge.Script.Syntax

/-!
# ScriptBridge.Script.Arithmetic

The operators on numbers, without metamethods.  Integers wrap around; integer division and
remainder round towards minus infinity; an operation on an integer and a float is one on
floats.  Comparisons between integers and floats are exact.
-/

namespace ScriptBridge.Script

/-- What an operator on two values comes to. -/
inductive Outcome where
  | value (v : Value)
  | failed (what : String)
  /-- The operands are not numbers. -/
  | foreign

namespace Arithmetic

open scoped CoreInstances

/-- The quotient of integers rounded down. -/
def intDiv (a b : Int64) : Int64 := Int64.ofInt (Int.fdiv a.toInt b.toInt)

/-- The remainder with the sign of the divisor. -/
def intMod (a b : Int64) : Int64 := Int64.ofInt (Int.fmod a.toInt b.toInt)

/-- Bits shifted to the left, or to the right for a negative amount; zeros come in. -/
def shiftLeft (a b : Int64) : Int64 :=
  let n := b.toInt
  if n ≤ -64 ∨ 64 ≤ n then 0
  else if 0 ≤ n then (a.toUInt64 <<< UInt64.ofNat n.toNat).toInt64
  else (a.toUInt64 >>> UInt64.ofNat (-n).toNat).toInt64

/-- An operator on two integers; none for those that work on floats only. -/
def onInts (op : BinaryOp) (a b : Int64) : Option Outcome :=
  match op with
  | .add => some (.value (.int (a + b)))
  | .sub => some (.value (.int (a - b)))
  | .mul => some (.value (.int (a * b)))
  | .idiv =>
    some (if b = 0 then .failed "attempt to divide by zero" else .value (.int (intDiv a b)))
  | .mod =>
    some (if b = 0 then .failed "attempt to perform 'n%0'" else .value (.int (intMod a b)))
  | .band => some (.value (.int (a &&& b)))
  | .bor => some (.value (.int (a ||| b)))
  | .bxor => some (.value (.int (a ^^^ b)))
  | .shl => some (.value (.int (shiftLeft a b)))
  | .shr =>
    some (.value (.int (if b.toInt ≤ -64 then 0 else shiftLeft a (-b))))
  | .pow | .div => none

/-- An operator on two floats; none for those that work on integers only. -/
def onFloats (op : BinaryOp) (a b : Binary64) : Option Value :=
  match op with
  | .add => some (.float (a.add b))
  | .sub => some (.float (a.sub b))
  | .mul => some (.float (a.mul b))
  | .div => some (.float (a.div b))
  | .pow => some (.float (a.pow b))
  | .idiv => some (.float (a.floorDiv b))
  | .mod => some (.float (a.floorMod b))
  | _ => none

def isBitwise : BinaryOp → Bool
  | .band | .bor | .bxor | .shl | .shr => true
  | _ => false

/-- An arithmetic operator; strings count as foreign here. -/
def arith (op : BinaryOp) (a b : Value) : Outcome :=
  let floats (_ : Unit) : Outcome :=
    match a.float?, b.float? with
    | some x, some y =>
      match onFloats op x y with
      | some v => .value v
      | none => .foreign
    | _, _ => .foreign
  match a, b with
  | .int x, .int y =>
    match onInts op x y with
    | some r => r
    | none => floats ()
  | _, _ => floats ()

/-- The integer that a number denotes exactly; strings are not read. -/
def whole? : Value → Option Int64
  | .int i => some i
  | .float x => floatToInt? x
  | _ => none

/-- A bitwise operator: floats that stand for integers are converted. -/
def bitwise (op : BinaryOp) (a b : Value) : Outcome :=
  match whole? a, whole? b with
  | some x, some y => (onInts op x y).getD .foreign
  | _, _ => .foreign

/-- An operator on two values. -/
def binary (op : BinaryOp) (a b : Value) : Outcome :=
  match a, b with
  | .int x, .int y =>
    match onInts op x y with
    | some r => r
    | none => arith op a b
  | a, b => if isBitwise op then bitwise op a b else arith op a b

/-- The order of two numbers or two strings, if they are either. -/
def less? (a b : Value) : Option Bool :=
  match a, b with
  | .int x, .int y => some (decide (x < y))
  | .float x, .float y => some (x.less y)
  | .int x, .float y => some (Binary64.compareInt? x.toInt y == some .lt)
  | .float x, .int y => some (Binary64.compareInt? y.toInt x == some .gt)
  | .str x, .str y => some (compareBytes x y == .lt)
  | _, _ => none

def lessEq? (a b : Value) : Option Bool :=
  match a, b with
  | .int x, .int y => some (decide (x ≤ y))
  | .float x, .float y => some (x.lessEq y)
  | .int x, .float y =>
    some (match Binary64.compareInt? x.toInt y with | some .lt | some .eq => true | _ => false)
  | .float x, .int y =>
    some (match Binary64.compareInt? y.toInt x with | some .gt | some .eq => true | _ => false)
  | .str x, .str y => some (compareBytes x y != .gt)
  | _, _ => none

/-! ## Counting loops -/

/-- The state of a loop that runs: how many rounds follow the first one (floats: the limit),
and the step and first value. -/
inductive LoopStart where
  | ints (first step : Int64) (rounds : Nat)
  | floats (first limit step : Binary64)
  | never
  | failed (what : String) (culprit : Option Value)

/-- The limit of a loop over integers, clipped to them; none when the loop does not run. -/
def intLimit (limit : Value) (step : Int64) : Except Unit (Option Int64) :=
  match limit.number? with
  | some (.int i) => .ok (some i)
  | some (.float x) =>
    let bounded :=
      if step < 0 then x.neg.floor?.map (fun i => -i) else x.floor?
    match bounded with
    | some i =>
      if -2 ^ 63 ≤ i ∧ i < 2 ^ 63 then .ok (some (Int64.ofInt i))
      else if 0 < i then .ok (if step < 0 then none else some Int64.maxValue)
      else .ok (if 0 < step then none else some Int64.minValue)
    | none =>
      if Binary64.less .zero x then .ok (if step < 0 then none else some Int64.maxValue)
      else .ok (if 0 < step then none else some Int64.minValue)
  | _ => .error ()

/-- Prepares a loop. -/
def loopStart (start limit step : Value) : LoopStart :=
  match start, step with
  | .int first, .int s =>
    if s = 0 then .failed "'for' step is zero" none
    else
      match intLimit limit s with
      | .error () => .failed "limit" (some limit)
      | .ok none => .never
      | .ok (some l) =>
        if (0 < s ∧ l < first) ∨ (s < 0 ∧ first < l) then .never
        else .ints first s ((l.toInt - first.toInt).natAbs / s.toInt.natAbs)
  | _, _ =>
    let asFloat (v : Value) : Option Binary64 := v.number?.bind Value.float?
    match asFloat limit, asFloat step, asFloat start with
    | none, _, _ => .failed "limit" (some limit)
    | _, none, _ => .failed "step" (some step)
    | _, _, none => .failed "initial value" (some start)
    | some l, some s, some f =>
      if s.equal .zero then .failed "'for' step is zero" none
      else if (if Binary64.less .zero s then l.less f else f.less l) then .never
      else .floats f l s

end Arithmetic

end ScriptBridge.Script

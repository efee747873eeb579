import ScriptBridge.CoreInstances

/-!
# ScriptBridge.Binary64

Double-precision numbers as the words that represent them.  A word denotes an exact dyadic
rational, an infinity or no number at all (`Binary64.shape`), and every conversion of this
library goes through that reading: rounding a quotient to the nearest double, reading an
exact integer back, comparing a double with an integer.  Only the four arithmetic operations
and powers are left to the floating-point unit.

Main definitions:

* `Binary64.shape` — what a word denotes;
* `Binary64.ofRatio`, `Binary64.ofInt` — the nearest double, ties to the even significand;
* `Binary64.toInt?` — the integer a double denotes exactly, if it denotes one.
-/

namespace ScriptBridge

/-- A double-precision number, given by its 64-bit word. -/
structure Binary64 where
  bits : UInt64
  deriving DecidableEq, Inhabited, Repr

namespace Binary64

open scoped CoreInstances

/-- What a word denotes; a finite one is `± significand · 2 ^ scale`. -/
inductive Shape where
  | nan
  | infinite (negative : Bool)
  | finite (negative : Bool) (significand : Nat) (scale : Int)
  deriving DecidableEq, Repr

/-- The sign bit. -/
def isNegative (x : Binary64) : Bool := decide (2 ^ 63 ≤ x.bits.toNat)

/-- The eleven exponent bits. -/
def exponentField (x : Binary64) : Nat := x.bits.toNat / 2 ^ 52 % 2 ^ 11

/-- The fifty-two fraction bits. -/
def fraction (x : Binary64) : Nat := x.bits.toNat % 2 ^ 52

/-- What the word denotes: the all-ones exponent marks infinities and non-numbers, the zero
exponent the numbers without the implicit leading bit. -/
def shape (x : Binary64) : Shape :=
  if x.exponentField = 2047 then
    if x.fraction = 0 then .infinite x.isNegative else .nan
  else if x.exponentField = 0 then .finite x.isNegative x.fraction (-1074)
  else .finite x.isNegative (2 ^ 52 + x.fraction) (x.exponentField - 1075)

/-- Whether the word denotes no number. -/
def isNaN (x : Binary64) : Bool := x.shape == .nan

/-! ## Words from their parts -/

/-- The word with a given sign bit and the other sixty-three bits. -/
def ofMagnitude (negative : Bool) (magnitude : Nat) : Binary64 :=
  ⟨UInt64.ofNat ((if negative then 2 ^ 63 else 0) + magnitude)⟩

/-- The magnitude bits of an infinity. -/
def infinityMagnitude : Nat := 2047 * 2 ^ 52

def infinity (negative : Bool) : Binary64 := ofMagnitude negative infinityMagnitude

/-- The word an invalid operation produces: the quiet non-number with its sign bit set. -/
def invalid : Binary64 := ⟨0xfff8000000000000⟩

def zero : Binary64 := ⟨0⟩

/-- The sign bit flipped, for every word. -/
def neg (x : Binary64) : Binary64 := ⟨x.bits ^^^ 0x8000000000000000⟩

/-! ## Rounding -/

/-- The natural number nearest to `num / den`, a tie going to the even one. -/
def divNearest (num den : Nat) : Nat :=
  let q := num / den
  let twice := 2 * (num % den)
  if twice < den then q
  else if den < twice then q + 1
  else q + q % 2

/-- The scale at which a positive quotient has a significand of fifty-three bits, or the
smallest scale when it is below the normal range. -/
def scaleOf (num den : Nat) : Int :=
  let estimate : Int := (Nat.log2 num : Int) - Nat.log2 den
  let wide : Int := estimate - 52
  let fits :=
    if 0 ≤ wide then 2 ^ 52 * (den * 2 ^ wide.toNat) ≤ num
    else 2 ^ 52 * den ≤ num * 2 ^ (-wide).toNat
  max (if fits then wide else wide - 1) (-1074)

/-- The significand of `num / den` at a scale, rounded to nearest. -/
def significandAt (num den : Nat) (scale : Int) : Nat :=
  if 0 ≤ scale then divNearest num (den * 2 ^ scale.toNat)
  else divNearest (num * 2 ^ (-scale).toNat) den

/-- The double nearest to `± num / den`, ties to the even significand; too large a quotient
gives the infinity.  The magnitude bits are `(scale + 1074) · 2 ^ 52 + significand` in the
normal range, below it, and when rounding carries into the next exponent. -/
def ofRatio (negative : Bool) (num den : Nat) : Binary64 :=
  if num = 0 then ofMagnitude negative 0
  else
    let scale := scaleOf num den
    let magnitude := (scale + 1074).toNat * 2 ^ 52 + significandAt num den scale
    ofMagnitude negative (min magnitude infinityMagnitude)

/-- The double nearest to an integer. -/
def ofInt (i : Int) : Binary64 := ofRatio (decide (i < 0)) i.natAbs 1

/-- The double nearest to a natural number. -/
def ofNat (n : Nat) : Binary64 := ofRatio false n 1

/-- The double nearest to `± m · 2 ^ e`. -/
def ofDyadic (negative : Bool) (m : Nat) (e : Int) : Binary64 :=
  if 0 ≤ e then ofRatio negative (m * 2 ^ e.toNat) 1
  else ofRatio negative m (2 ^ (-e).toNat)

/-- The double nearest to `± m · 10 ^ e`. -/
def ofDecimal (negative : Bool) (m : Nat) (e : Int) : Binary64 :=
  if 0 ≤ e then ofRatio negative (m * 10 ^ e.toNat) 1
  else ofRatio negative m (10 ^ (-e).toNat)

/-- The double that a single-precision word denotes; every single-precision number is a
double. -/
def ofBinary32 (word : UInt32) : Binary64 :=
  let negative := decide (2 ^ 31 ≤ word.toNat)
  let exponent : Nat := word.toNat / 2 ^ 23 % 2 ^ 8
  let fraction : Nat := word.toNat % 2 ^ 23
  if exponent = 255 then
    if fraction = 0 then infinity negative
    else ofMagnitude negative (infinityMagnitude + (2 ^ 51 ||| fraction * 2 ^ 29))
  else if exponent = 0 then ofDyadic negative fraction (-149)
  else ofDyadic negative (2 ^ 23 + fraction) ((exponent : Int) - 150)

/-! ## Exact readings -/

/-- `num / den` for a finite double's absolute value. -/
def Shape.ratio (significand : Nat) (scale : Int) : Nat × Nat :=
  if 0 ≤ scale then (significand * 2 ^ scale.toNat, 1) else (significand, 2 ^ (-scale).toNat)

/-- The integer a double denotes exactly; none for fractions, infinities and non-numbers. -/
def toInt? (x : Binary64) : Option Int :=
  match x.shape with
  | .finite negative m e =>
    let r := Shape.ratio m e
    if r.1 % r.2 = 0 then
      some (if negative then -((r.1 / r.2 : Nat) : Int) else ((r.1 / r.2 : Nat) : Int))
    else none
  | _ => none

/-- Whether a double is a finite number without a fraction. -/
def isWhole (x : Binary64) : Bool :=
  match x.shape with
  | .finite _ m e => (Shape.ratio m e).1 % (Shape.ratio m e).2 == 0
  | _ => false

/-- The integer of sixty-four bits next to a double on the way to zero; beyond the least and the
greatest of them it is that one, and for a non-number zero. -/
def toInt64 (x : Binary64) : Int :=
  match x.shape with
  | .nan => 0
  | .infinite negative => if negative then -2 ^ 63 else 2 ^ 63 - 1
  | .finite negative m e =>
    let i : Int := ((Shape.ratio m e).1 / (Shape.ratio m e).2 : Nat)
    max (-2 ^ 63) (min (2 ^ 63 - 1) (if negative then -i else i))

/-- The largest integer not above a finite double. -/
def floor? (x : Binary64) : Option Int :=
  match x.shape with
  | .finite negative m e =>
    let (num, den) := Shape.ratio m e
    let n : Int := num
    some (if negative then Int.fdiv (-n) den else Int.fdiv n den)
  | _ => none

/-- The double with the fraction rounded down; words without a finite reading are kept, and
so is the sign of a zero. -/
def floor (x : Binary64) : Binary64 :=
  match x.floor? with
  | some i => if i = 0 then ofMagnitude x.isNegative 0 else ofInt i
  | none => x

/-- Comparison of an integer with a double; none against a non-number. -/
def compareInt? (i : Int) (x : Binary64) : Option Ordering :=
  match x.shape with
  | .nan => none
  | .infinite negative => some (if negative then .gt else .lt)
  | .finite negative m e =>
    let (num, den) := Shape.ratio m e
    some (compare (i * den) (if negative then -(num : Int) else num))

/-- Comparison of two doubles; none against a non-number, and the two zeros are equal. -/
def compare? (x y : Binary64) : Option Ordering :=
  match x.shape, y.shape with
  | .nan, _ | _, .nan => none
  | .infinite a, .infinite b => some (compare b.toNat a.toNat)
  | .infinite a, _ => some (if a then .lt else .gt)
  | _, .infinite b => some (if b then .gt else .lt)
  | .finite na ma ea, .finite nb mb eb =>
    let (numA, denA) := Shape.ratio ma ea
    let (numB, denB) := Shape.ratio mb eb
    let a : Int := if na then -(numA : Int) else numA
    let b : Int := if nb then -(numB : Int) else numB
    some (compare (a * denB) (b * denA))

/-- Numeric equality: a non-number differs from everything, the two zeros agree. -/
def equal (x y : Binary64) : Bool := compare? x y == some .eq

def less (x y : Binary64) : Bool := compare? x y == some .lt

def lessEq (x y : Binary64) : Bool :=
  match compare? x y with
  | some .lt | some .eq => true
  | _ => false

/-! ## Arithmetic -/

def toFloat (x : Binary64) : Float := Float.ofBits x.bits

/-- A non-number with its quiet bit set. -/
def quiet (x : Binary64) : Binary64 := ⟨x.bits ||| 0x0008000000000000⟩

/-- The word of a computed double; a non-number operand is passed on, the first before the
second, and a non-number that arises otherwise is `invalid`. -/
def settle (x y : Binary64) (result : Float) : Binary64 :=
  let r : Binary64 := ⟨result.toBits⟩
  if !r.isNaN then r
  else if x.isNaN then x.quiet
  else if y.isNaN then y.quiet
  else invalid

def add (x y : Binary64) : Binary64 := settle x y (x.toFloat + y.toFloat)
def sub (x y : Binary64) : Binary64 := settle x y (x.toFloat - y.toFloat)
def mul (x y : Binary64) : Binary64 := settle x y (x.toFloat * y.toFloat)
def div (x y : Binary64) : Binary64 := settle x y (x.toFloat / y.toFloat)

/-- Powers; a square is a product. -/
def pow (x y : Binary64) : Binary64 :=
  if y = ofNat 2 then mul x x else settle x y (Float.pow x.toFloat y.toFloat)

/-- The exact remainder of truncated division, with the sign of the dividend. -/
def truncRem (x y : Binary64) : Binary64 :=
  match x.shape, y.shape with
  | .nan, _ => x.quiet
  | _, .nan => y.quiet
  | .infinite _, _ => invalid
  | .finite .., .infinite _ => x
  | .finite na ma ea, .finite _ mb eb =>
    if mb = 0 then invalid
    else
      let low := min ea eb
      let a := ma * 2 ^ (ea - low).toNat
      let b := mb * 2 ^ (eb - low).toNat
      ofDyadic na (a % b) low

/-- The remainder with the sign of the divisor. -/
def floorMod (x y : Binary64) : Binary64 :=
  let m := truncRem x y
  let adjust :=
    if less zero m then less y zero
    else less m zero && less zero y
  if adjust then add m y else m

/-- The floor of the quotient. -/
def floorDiv (x y : Binary64) : Binary64 := (div x y).floor

end Binary64

end ScriptBridge

import ScriptBridge.Script.Value

/-!
# ScriptBridge.Script.Numeral

Reading numerals.  A numeral is decimal or hexadecimal; without a point and an exponent it is
an integer, where a decimal one that needs more than sixty-four bits becomes a float and a
hexadecimal one wraps around.
-/

namespace ScriptBridge.Script

/-- An ASCII letter. -/
def isLetter (b : UInt8) : Bool := (0x41 ≤ b && b ≤ 0x5a) || (0x61 ≤ b && b ≤ 0x7a)

def isDigit (b : UInt8) : Bool := 0x30 ≤ b && b ≤ 0x39

/-- A letter or an underscore. -/
def isNameStart (b : UInt8) : Bool := isLetter b || b == 0x5f

def isNamePart (b : UInt8) : Bool := isNameStart b || isDigit b

/-- White space of the script language. -/
def isSpace (b : UInt8) : Bool := b == 0x20 || (0x09 ≤ b && b ≤ 0x0d)

/-- The value of a hexadecimal digit. -/
def hexDigit? (b : UInt8) : Option Nat :=
  if isDigit b then some (b.toNat - 0x30)
  else if 0x41 ≤ b && b ≤ 0x46 then some (b.toNat - 0x41 + 10)
  else if 0x61 ≤ b && b ≤ 0x66 then some (b.toNat - 0x61 + 10)
  else none

/-- The value of a decimal digit. -/
def decDigit? (b : UInt8) : Option Nat := if isDigit b then some (b.toNat - 0x30) else none

namespace Numeral

open scoped CoreInstances

/-- The digits at the head of a byte list: their value in a base, their count, and the rest. -/
def digits (digit? : UInt8 → Option Nat) (base : Nat) :
    List UInt8 → (value count : Nat) → Nat × Nat × List UInt8
  | [], value, count => (value, count, [])
  | b :: rest, value, count =>
    match digit? b with
    | some d => digits digit? base rest (value * base + d) (count + 1)
    | none => (value, count, b :: rest)

/-- An optional sign: whether it is a minus, and the rest. -/
def sign : List UInt8 → Bool × List UInt8
  | 0x2d :: rest => (true, rest)
  | 0x2b :: rest => (false, rest)
  | rest => (false, rest)

/-- A signed decimal exponent; none without a digit. -/
def exponent (s : List UInt8) : Option (Int × List UInt8) :=
  let (negative, s) := sign s
  let (value, count, rest) := digits decDigit? 10 s 0 0
  if count = 0 then none else some (if negative then -(value : Int) else value, rest)

/-- `± m · 10 ^ e` as a double; exponents far out of range are decided without computing the
power. -/
def decimalFloat (negative : Bool) (m : Nat) (e : Int) : Binary64 :=
  let size : Int := (Nat.toDigits 10 m).length
  if m = 0 then Binary64.ofMagnitude negative 0
  else if 400 < e + size then Binary64.infinity negative
  else if e + size < -400 then Binary64.ofMagnitude negative 0
  else Binary64.ofDecimal negative m e

/-- `± m · 2 ^ e` as a double; exponents far out of range are decided without computing the
power. -/
def binaryFloat (negative : Bool) (m : Nat) (e : Int) : Binary64 :=
  let size : Int := Nat.log2 m
  if m = 0 then Binary64.ofMagnitude negative 0
  else if 1200 < e + size then Binary64.infinity negative
  else if e + size < -1200 then Binary64.ofMagnitude negative 0
  else Binary64.ofDyadic negative m e

/-- A decimal numeral and what follows it. -/
def decimal (negative : Bool) (s : List UInt8) : Option (Value × List UInt8) :=
  let (whole, wholeCount, rest) := digits decDigit? 10 s 0 0
  let (m, partCount, rest, isFloat) :=
    match rest with
    | 0x2e :: rest =>
      let (m, count, rest) := digits decDigit? 10 rest whole 0
      (m, count, rest, true)
    | rest => (whole, 0, rest, false)
  if wholeCount + partCount = 0 then none
  else
    match rest with
    | b :: more =>
      if b == 0x65 || b == 0x45 then
        (exponent more).map fun (e, rest) =>
          (.float (decimalFloat negative m (e - partCount)), rest)
      else some (finish m partCount isFloat, rest)
    | [] => some (finish m partCount isFloat, [])
where
  /-- A numeral without an exponent. -/
  finish (m partCount : Nat) (isFloat : Bool) : Value :=
    if isFloat then .float (decimalFloat negative m (-partCount))
    else if m < 2 ^ 63 ∨ (negative ∧ m = 2 ^ 63) then
      .int (Int64.ofInt (if negative then -(m : Int) else m))
    else .float (decimalFloat negative m 0)

/-- A hexadecimal numeral, after its `0x`, and what follows it. -/
def hexadecimal (negative : Bool) (s : List UInt8) : Option (Value × List UInt8) :=
  let (whole, wholeCount, rest) := digits hexDigit? 16 s 0 0
  let (m, partCount, rest, isFloat) :=
    match rest with
    | 0x2e :: rest =>
      let (m, count, rest) := digits hexDigit? 16 rest whole 0
      (m, count, rest, true)
    | rest => (whole, 0, rest, false)
  if wholeCount + partCount = 0 then none
  else
    let shift : Int := -(4 * partCount : Nat)
    let finish :=
      if isFloat then Value.float (binaryFloat negative m shift)
      else
        let i := Int64.ofInt (Int.bmod m (2 ^ 64))
        Value.int (if negative then -i else i)
    match rest with
    | b :: more =>
      if b == 0x70 || b == 0x50 then
        (exponent more).map fun (e, rest) => (.float (binaryFloat negative m (e + shift)), rest)
      else some (finish, rest)
    | [] => some (finish, [])

/-- A numeral with an optional sign, alone between white space. -/
def read (s : List UInt8) : Option Value :=
  let (negative, s) := sign (s.dropWhile isSpace)
  let found :=
    match s with
    | 0x30 :: x :: rest =>
      if x == 0x78 || x == 0x58 then hexadecimal negative rest else decimal negative s
    | _ => decimal negative s
  match found with
  | some (v, rest) => if rest.all isSpace then some v else none
  | none => none

end Numeral

/-- The number a value is or, for a string, can be read as. -/
def Value.number? : Value → Option Value
  | .int i => some (.int i)
  | .float x => some (.float x)
  | .str s => Numeral.read s.toList
  | _ => none

/-- The integer a number stands for exactly, strings read as numerals. -/
def Value.integer? (v : Value) : Option Int64 :=
  match v.number? with
  | some (.int i) => some i
  | some (.float x) => floatToInt? x
  | _ => none

/-- A number as a double. -/
def Value.float? : Value → Option Binary64
  | .int i => some (intToFloat i)
  | .float x => some x
  | _ => none

end ScriptBridge.Script

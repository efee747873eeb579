import ScriptBridge.Binary64

/-!
# ScriptBridge.Binary64.Decimal

Decimal texts of doubles.  Two rules choose the digits: the fewest that still read back as
the same double (`shortest`), and a fixed count of significant digits rounded to nearest
(`significant`).  Two rules lay them out: positionally and without an exponent
(`Binary64.positional`), or in the shorter of positional and exponent form
(`Binary64.general`).
-/

namespace ScriptBridge

/-- A decimal number `digits · 10 ^ exponent`. -/
structure Decimal where
  digits : Nat
  exponent : Int
  deriving DecidableEq, Repr

namespace Decimal

open scoped CoreInstances

/-- `num / den · 10 ^ (-k)` as a quotient of natural numbers. -/
def shift (num den : Nat) (k : Int) : Nat × Nat :=
  if 0 ≤ k then (num, den * 10 ^ k.toNat) else (num * 10 ^ (-k).toNat, den)

/-- The exponent of the leading decimal digit of a positive quotient: an estimate from the
binary lengths, corrected by comparison. -/
def leading (num den : Nat) : Int :=
  let estimate := Int.fdiv (((Nat.log2 num : Int) - Nat.log2 den) * 30103) 100000
  let reaches (k : Int) : Bool := let r := shift num den k; decide (r.2 ≤ r.1)
  if reaches (estimate + 1) then estimate + 1
  else if reaches estimate then estimate
  else estimate - 1

/-- The quotient rounded to `count` significant digits, a tie going to the even digit. -/
def significant (num den count : Nat) : Decimal :=
  let k := leading num den - count + 1
  let r := shift num den k
  let d := Binary64.divNearest r.1 r.2
  if d = 10 ^ count then ⟨d / 10, k + 1⟩ else ⟨d, k⟩

/-- Whether `d · 10 ^ k` reads back as the double `m · 2 ^ e`: it lies within half a unit of
the last place, the ends included when the significand is even; below a power of two the unit
is half as large. -/
def readsBack (m : Nat) (e : Int) (d : Nat) (k : Int) : Bool :=
  -- all three numbers scaled by four and by the denominators
  let value := Binary64.Shape.ratio m e
  let unit := Binary64.Shape.ratio 1 e
  let candidate := if 0 ≤ k then (d * 10 ^ k.toNat, 1) else (d, 10 ^ (-k).toNat)
  let c := 4 * candidate.1 * value.2
  let v := 4 * value.1 * candidate.2
  let half := 2 * unit.1 * candidate.2
  let below := if m = 2 ^ 52 ∧ e ≠ -1074 then half / 2 else half
  if m % 2 = 0 then decide (v ≤ c + below ∧ c ≤ v + half)
  else decide (v < c + below ∧ c < v + half)

/-- The nearer of the two neighbours of the value on the grid of `count` digits that reads
back, if one does. -/
def onGrid (m : Nat) (e : Int) (lead : Int) (count : Nat) : Option Decimal :=
  let k := lead - count + 1
  let value := Binary64.Shape.ratio m e
  let r := shift value.1 value.2 k
  let low := r.1 / r.2
  let twice := 2 * (r.1 % r.2)
  let first := if twice < r.2 ∨ (twice = r.2 ∧ low % 2 = 0) then low else low + 1
  let second := if first = low then low + 1 else low
  if readsBack m e first k then some ⟨first, k⟩
  else if readsBack m e second k then some ⟨second, k⟩
  else none

/-- The decimal of fewest digits that reads back as `m · 2 ^ e`; seventeen always do. -/
def shortest (m : Nat) (e : Int) : Decimal :=
  let value := Binary64.Shape.ratio m e
  let lead := leading value.1 value.2
  let found := (List.range 16).findSome? fun i => onGrid m e lead (i + 1)
  found.getD (significant value.1 value.2 17)

/-- The digits as text. -/
def text (d : Decimal) : List Char := Nat.toDigits 10 d.digits

/-- Positional layout: the point falls where the exponent puts it, zeros fill the gap, and
nothing follows a whole number. -/
def positional (d : Decimal) : String :=
  let ds := d.text
  if 0 ≤ d.exponent then String.ofList (ds ++ List.replicate d.exponent.toNat '0')
  else
    let places := (-d.exponent).toNat
    let padded := List.replicate (places + 1 - ds.length) '0' ++ ds
    let whole := padded.take (padded.length - places)
    let part := padded.drop (padded.length - places)
    String.ofList (whole ++ '.' :: part)

/-- Trailing zeros moved from the digits into the exponent. -/
def strip : Nat → Decimal → Decimal
  | 0, d => d
  | n + 1, d => if d.digits % 10 = 0 ∧ d.digits ≠ 0 then strip n ⟨d.digits / 10, d.exponent + 1⟩ else d

/-- An exponent with its sign and at least two digits. -/
def exponentText (e : Int) : String :=
  let ds := Nat.toDigits 10 e.natAbs
  (if e < 0 then "-" else "+") ++ String.ofList (List.replicate (2 - ds.length) '0' ++ ds)

/-- One digit before the point, the exponent after an `e`. -/
def scientific (d : Decimal) : String :=
  let ds := d.text
  let e := d.exponent + ds.length - 1
  let mantissa :=
    match ds with
    | first :: second :: rest => String.ofList (first :: '.' :: second :: rest)
    | short => String.ofList short
  mantissa ++ "e" ++ exponentText e

end Decimal

namespace Binary64

/-- The shortest text that reads back, never with an exponent: `1e21` is written with all its
zeros, and a whole number without a point. -/
def positional (x : Binary64) : String :=
  match x.shape with
  | .nan => "NaN"
  | .infinite negative => if negative then "-inf" else "inf"
  | .finite negative m e =>
    let magnitude := if m = 0 then "0" else (Decimal.shortest m e |>.strip 17).positional
    if negative then "-" ++ magnitude else magnitude

/-- At most `count` significant digits without trailing zeros; an exponent is written when it
is below `-4` or not below `count`. -/
def general (count : Nat) (x : Binary64) : String :=
  match x.shape with
  | .nan => if x.isNegative then "-nan" else "nan"
  | .infinite negative => if negative then "-inf" else "inf"
  | .finite negative m e =>
    let magnitude :=
      if m = 0 then "0"
      else
        let value := Shape.ratio m e
        let d := Decimal.significant value.1 value.2 count
        let lead := d.exponent + count - 1
        let d := d.strip count
        if lead < -4 ∨ (count : Int) ≤ lead then d.scientific else d.positional
    if negative then "-" ++ magnitude else magnitude

end Binary64

end ScriptBridge

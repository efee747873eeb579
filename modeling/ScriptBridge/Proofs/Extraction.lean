import ScriptBridge.Proofs.Rounding
import ScriptBridge.Value

/-!
# ScriptBridge.Proofs.Extraction

Integers that are made into doubles, and doubles that are read as integers.  The guard of an
extraction compares doubles, and the bound above is the double of an integer that has none of its
own: it is rounded up, to the first integer that has too many bits.

Main facts:

* `Binary64.isWhole_iff`, `Binary64.compare?_of_value?` — the guard, by what doubles denote;
* `Binary64.whole_ofInt` — rounding an integer gives an integer;
* `Value.int64?_eq_some_iff` — what is extracted is what the double denotes;
* `Value.integers_exact` — extraction is exact, and which integers survive it.
-/

namespace ScriptBridge

namespace Binary64

variable {x y : Binary64} {u v : ℚ} {k : ℤ}

/-! ## Doubles as quotients -/

theorem ratio_pos (m : Nat) (e : Int) : 0 < (Shape.ratio m e).2 := by
  rw [Shape.ratio]
  split
  · exact Nat.one_pos
  · positivity

theorem ratio_div (m : Nat) (e : Int) :
    ((Shape.ratio m e).1 : ℚ) / (Shape.ratio m e).2 = m * 2 ^ e := by
  rw [Shape.ratio]
  split
  · rename_i h
    obtain ⟨j, rfl⟩ := Int.eq_ofNat_of_zero_le h
    simp
  · rename_i h
    obtain ⟨j, rfl⟩ : ∃ j : Nat, e = -j := ⟨(-e).toNat, by omega⟩
    simp [div_eq_mul_inv]

/-- A double that denotes a number is finite, and the number is a quotient. -/
theorem shape_of_value? (h : x.value? = some u) :
    ∃ negative m e, x.shape = .finite negative m e
      ∧ u = ((if negative then -((Shape.ratio m e).1 : ℤ) else (Shape.ratio m e).1 : ℤ) : ℚ)
        / (Shape.ratio m e).2 := by
  rw [value?] at h
  split at h
  · rename_i negative m e shape
    refine ⟨negative, m, e, shape, ?_⟩
    rw [← Option.some.inj h, ← ratio_div]
    cases negative <;> simp [neg_div]
  · cases h

/-- The quotient of a double that denotes an integer leaves no rest. -/
theorem quotient_of_value? {negative : Bool} {m : Nat} {e : Int}
    (shape : x.shape = .finite negative m e) (h : x.value? = some (k : ℚ)) :
    ∃ j : Nat, (Shape.ratio m e).1 = (Shape.ratio m e).2 * j ∧ k = if negative then -(j : ℤ) else j := by
  obtain ⟨negative', m', e', shape', quotient⟩ := shape_of_value? h
  cases shape.symm.trans shape'
  have positive := ratio_pos m e
  rw [eq_div_iff (by positivity)] at quotient
  have product : k * (Shape.ratio m e).2
      = if negative then -((Shape.ratio m e).1 : ℤ) else (Shape.ratio m e).1 := by
    exact_mod_cast quotient
  have size : k.natAbs * (Shape.ratio m e).2 = (Shape.ratio m e).1 := by
    have sizes := congrArg Int.natAbs product
    rw [Int.natAbs_mul, Int.natAbs_natCast] at sizes
    cases negative <;> simpa using sizes
  refine ⟨k.natAbs, by rw [mul_comm, size], ?_⟩
  have unit : (0 : ℤ) < (Shape.ratio m e).2 := by exact_mod_cast positive
  have side : if negative then k ≤ 0 else 0 ≤ k := by
    cases negative
    · refine nonneg_of_mul_nonneg_left ?_ unit
      rw [product]
      exact Int.natCast_nonneg _
    · refine nonpos_of_mul_nonpos_left ?_ unit
      rw [product]
      exact Int.neg_nonpos_of_nonneg (Int.natCast_nonneg _)
  cases negative
  · exact (Int.natAbs_of_nonneg side).symm
  · change k ≤ 0 at side
    change k = -(k.natAbs : ℤ)
    omega

/-- A double is whole if, and only if, it denotes an integer. -/
theorem isWhole_iff : x.isWhole = true ↔ ∃ k : ℤ, x.value? = some (k : ℚ) := by
  rw [isWhole]
  constructor
  · intro whole
    split at whole
    · rename_i negative m e shape
      obtain ⟨j, hj⟩ := Nat.dvd_of_mod_eq_zero (beq_iff_eq.mp whole)
      have size : (m : ℚ) * 2 ^ e = j := by
        have := ratio_pos m e
        rw [← ratio_div, hj]
        push_cast
        field_simp
      refine ⟨(if negative then -1 else 1) * j, ?_⟩
      rw [value?, shape]
      cases negative <;> simp [size]
    · cases whole
  · rintro ⟨k, denotes⟩
    obtain ⟨negative, m, e, shape, -⟩ := shape_of_value? denotes
    obtain ⟨j, whole, -⟩ := quotient_of_value? shape denotes
    rw [shape]
    exact beq_iff_eq.mpr (by rw [whole, Nat.mul_mod_right])

/-- An integer that a double denotes is what the double is cut to, within sixty-four bits. -/
theorem toInt64_of_value? (h : x.value? = some (k : ℚ)) :
    x.toInt64 = max (-2 ^ 63) (min (2 ^ 63 - 1) k) := by
  obtain ⟨negative, m, e, shape, -⟩ := shape_of_value? h
  obtain ⟨j, whole, rfl⟩ := quotient_of_value? shape h
  have part : (Shape.ratio m e).1 / (Shape.ratio m e).2 = j := by
    rw [whole, Nat.mul_div_cancel_left _ (ratio_pos m e)]
  rw [toInt64, shape]
  simp only [part]

/-! ## Comparisons -/

theorem compare_div {a b : ℤ} {c d : Nat} (hc : 0 < c) (hd : 0 < d) :
    compare (a * d) (b * c) = compare ((a : ℚ) / c) ((b : ℚ) / d) := by
  have hc' : (0 : ℚ) < c := by exact_mod_cast hc
  have hd' : (0 : ℚ) < d := by exact_mod_cast hd
  obtain less | same | more := lt_trichotomy (a * d) (b * c)
  · rw [compare_lt_iff_lt.mpr less, eq_comm, compare_lt_iff_lt, div_lt_div_iff₀ hc' hd']
    exact_mod_cast less
  · rw [compare_eq_iff_eq.mpr same, eq_comm, compare_eq_iff_eq, div_eq_div_iff hc'.ne' hd'.ne']
    exact_mod_cast same
  · have further : (b : ℚ) / d < a / c := (div_lt_div_iff₀ hd' hc').mpr (by exact_mod_cast more)
    rw [compare_gt_iff_gt.mpr more, compare_gt_iff_gt.mpr further]

/-- Doubles compare as what they denote. -/
theorem compare?_of_value? (hx : x.value? = some u) (hy : y.value? = some v) :
    compare? x y = some (compare u v) := by
  obtain ⟨na, ma, ea, shapeX, rfl⟩ := shape_of_value? hx
  obtain ⟨nb, mb, eb, shapeY, rfl⟩ := shape_of_value? hy
  rw [compare?, shapeX, shapeY]
  exact congrArg some (compare_div (ratio_pos ma ea) (ratio_pos mb eb))

theorem less_iff (hx : x.value? = some u) (hy : y.value? = some v) : x.less y = true ↔ u < v := by
  rw [less, compare?_of_value? hx hy, ← compare_lt_iff_lt]
  simp

theorem lessEq_iff (hx : x.value? = some u) (hy : y.value? = some v) :
    x.lessEq y = true ↔ u ≤ v := by
  rw [lessEq, compare?_of_value? hx hy, ← compare_le_iff_le]
  cases compare u v <;> simp

theorem equal_iff (hx : x.value? = some u) (hy : y.value? = some v) : x.equal y = true ↔ u = v := by
  rw [equal, compare?_of_value? hx hy, ← compare_eq_iff_eq]
  simp

/-! ## Rounded integers -/

/-- The double of an integer denotes an integer. -/
theorem whole_ofInt (size : k.natAbs < 2 ^ 64) : ∃ j : ℤ, (ofInt k).value? = some (j : ℚ) := by
  by_cases zero : k.natAbs = 0
  · obtain rfl : k = 0 := Int.natAbs_eq_zero.mp zero
    obtain ⟨v, value, -⟩ := nearest_ofRatio false (n := 0) (by norm_num)
    obtain ⟨shape, -⟩ := shape_ofMagnitude false (m := 0) (by decide)
    refine ⟨0, ?_⟩
    rw [value?, ofInt, ofRatio, if_pos Int.natAbs_zero]
    simp [shape]
  · obtain ⟨-, -, rounded⟩ := significandAt_nat zero
    have value := (value?_ofRatio (decide (k < 0)) zero size).1
    have natural : ∃ j : Nat, ((significandAt k.natAbs 1 ((Nat.log2 k.natAbs : Int) - 52) : Nat) : ℚ)
        * 2 ^ ((Nat.log2 k.natAbs : Int) - 52) = j := by
      obtain exactly | ⟨i, -, scale, -⟩ := rounded
      · exact ⟨_, exactly⟩
      · refine ⟨significandAt k.natAbs 1 ((Nat.log2 k.natAbs : Int) - 52) * 2 ^ i, ?_⟩
        rw [scale, zpow_natCast]
        push_cast
        rfl
    obtain ⟨j, same⟩ := natural
    refine ⟨(if decide (k < 0) then -1 else 1) * j, ?_⟩
    rw [ofInt, value, same]
    split <;> simp

/-- A double that is nearest to a number which some double denotes denotes it. -/
theorem Nearest.denotes (h : Nearest u x) (hy : y.value? = some u) : x.value? = some u := by
  obtain ⟨v, value, near⟩ := h
  have none : |u - v| ≤ 0 := by simpa using (near y u hy).1
  rw [value, sub_eq_zero.mp (abs_nonpos_iff.mp none)]

/-- A double that is nearest to a number is not below what another one denotes that is not above it. -/
theorem Nearest.le (h : Nearest u x) (hx : x.value? = some v) {w : ℚ} (hy : y.value? = some w)
    (low : w ≤ u) : w ≤ v := by
  obtain ⟨v', value, near⟩ := h
  obtain rfl : v' = v := Option.some.inj (value.symm.trans hx)
  have closer := (near y w hy).1
  rw [abs_of_nonneg (sub_nonneg.mpr low)] at closer
  linarith [le_abs_self (u - v')]

theorem value?_least : (ofInt (-2 ^ 63)).value? = some ((-2 ^ 63 : ℤ) : ℚ) := by
  have shape : (ofInt (-2 ^ 63)).shape = .finite true (2 ^ 52) 11 := by decide +kernel
  rw [value?, shape]
  norm_num

/-- The greatest integer of sixty-four bits has no double of its own. -/
theorem value?_greatest : (ofInt (2 ^ 63 - 1)).value? = some ((2 ^ 63 : ℤ) : ℚ) := by
  have shape : (ofInt (2 ^ 63 - 1)).shape = .finite false (2 ^ 52) 11 := by decide +kernel
  rw [value?, shape]
  norm_num

end Binary64

namespace Value

open Binary64 (Nearest)

variable {x : Binary64} {k : ℤ}

/-! ## Extraction -/

/-- The guard of an extraction lets the doubles pass that denote integers of sixty-four bits. -/
theorem isInt64_iff : isInt64 x = true
    ↔ ∃ k : ℤ, x.value? = some (k : ℚ) ∧ -2 ^ 63 ≤ k ∧ k < 2 ^ 63 := by
  rw [isInt64, Bool.and_eq_true, Bool.and_eq_true, Binary64.isWhole_iff]
  have guards : ∀ k : ℤ, x.value? = some (k : ℚ) →
      ((Binary64.ofInt (-2 ^ 63)).lessEq x = true ↔ -2 ^ 63 ≤ k)
        ∧ (x.less (.ofInt (2 ^ 63 - 1)) = true ↔ k < 2 ^ 63) := by
    intro k denotes
    rw [Binary64.lessEq_iff Binary64.value?_least denotes,
      Binary64.less_iff denotes Binary64.value?_greatest, Int.cast_le, Int.cast_lt]
    exact ⟨Iff.rfl, Iff.rfl⟩
  constructor
  · rintro ⟨⟨⟨k, denotes⟩, low⟩, high⟩
    exact ⟨k, denotes, (guards k denotes).1.mp low, (guards k denotes).2.mp high⟩
  · rintro ⟨k, denotes, low, high⟩
    exact ⟨⟨⟨k, denotes⟩, (guards k denotes).1.mpr low⟩, (guards k denotes).2.mpr high⟩

/-- What is extracted is what the double denotes, and it has sixty-four bits. -/
theorem int64?_eq_some_iff : int64? x = some k
    ↔ x.value? = some (k : ℚ) ∧ -2 ^ 63 ≤ k ∧ k < 2 ^ 63 := by
  have whole : ∀ k : ℤ, x.value? = some (k : ℚ) → -2 ^ 63 ≤ k → k < 2 ^ 63 → int64? x = some k := by
    intro k denotes low high
    rw [int64?, if_pos (isInt64_iff.mpr ⟨k, denotes, low, high⟩), Binary64.toInt64_of_value? denotes]
    exact congrArg some (by omega)
  constructor
  · intro extracted
    by_cases guard : isInt64 x = true
    · obtain ⟨k', denotes, low, high⟩ := isInt64_iff.mp guard
      obtain rfl : k' = k := Option.some.inj ((whole k' denotes low high).symm.trans extracted)
      exact ⟨denotes, low, high⟩
    · rw [int64?, if_neg guard] at extracted
      cases extracted
  · rintro ⟨denotes, low, high⟩
    exact whole k denotes low high

theorem toInt_number : toInt (.number x) = match int64? x with
    | some i => .ok i
    | none => .error (.unsupportedType (.notInteger x)) := rfl

theorem toInt_eq_ok_iff : toInt (.number x) = .ok k
    ↔ x.value? = some (k : ℚ) ∧ -2 ^ 63 ≤ k ∧ k < 2 ^ 63 := by
  rw [← int64?_eq_some_iff, toInt_number]
  cases int64? x <;> simp

theorem toInt_eq_error_iff {f : Failure} : toInt (.number x) = .error f
    ↔ f = .unsupportedType (.notInteger x)
      ∧ ¬ ∃ k : ℤ, x.value? = some (k : ℚ) ∧ -2 ^ 63 ≤ k ∧ k < 2 ^ 63 := by
  simp only [← int64?_eq_some_iff, toInt_number]
  cases int64? x <;> simp [eq_comm]

/-- What becomes of an integer that is made into a double and extracted again. -/
theorem toInt_ofInt (low : -2 ^ 63 ≤ k) (size : k < 2 ^ 64) :
    ∃ j : ℤ, (Binary64.ofInt k).value? = some (j : ℚ)
      ∧ (j < 2 ^ 63 → toInt (ofInt k) = .ok j)
      ∧ (2 ^ 63 ≤ j → toInt (ofInt k) = .error (.unsupportedType (.notInteger (.ofInt k)))) := by
  obtain ⟨j, denotes⟩ := Binary64.whole_ofInt (k := k) (by omega)
  have least : -2 ^ 63 ≤ j := by
    have nearest := Binary64.nearest_ofInt (i := k) (by omega)
    exact_mod_cast nearest.le denotes Binary64.value?_least (by exact_mod_cast low)
  refine ⟨j, denotes, fun high => toInt_eq_ok_iff.mpr ⟨denotes, least, high⟩, fun beyond => ?_⟩
  refine toInt_eq_error_iff.mpr ⟨rfl, ?_⟩
  rintro ⟨i, denotes', -, high⟩
  have same : j = i := by exact_mod_cast Option.some.inj (denotes.symm.trans denotes')
  omega

/-- Extraction of integers is exact, and so are integers that become doubles, as far as there are
doubles for them. -/
theorem integers_exact :
    (∀ (x : Binary64) (k : ℤ), toInt (.number x) = .ok k
      ↔ x.value? = some (k : ℚ) ∧ -2 ^ 63 ≤ k ∧ k < 2 ^ 63)
    ∧ (∀ x : Binary64, (∃ k, toInt (.number x) = .ok k)
      ∨ toInt (.number x) = .error (.unsupportedType (.notInteger x)))
    ∧ (∀ x : Binary64, isInt64 x = true →
      ∃ k : ℤ, x.value? = some (k : ℚ) ∧ -2 ^ 63 ≤ k ∧ k < 2 ^ 63 ∧ x.toInt64 = k)
    ∧ (∀ k : ℤ, -2 ^ 63 ≤ k → k < 2 ^ 64 →
      Nearest k (.ofInt k)
      ∧ (toInt (ofInt k) = .ok k ↔ k < 2 ^ 63 ∧ ∃ y : Binary64, y.value? = some (k : ℚ))
      ∧ ∃ j : ℤ, (Binary64.ofInt k).value? = some (j : ℚ)
        ∧ (j < 2 ^ 63 → toInt (ofInt k) = .ok j)
        ∧ (2 ^ 63 ≤ j ↔ toInt (ofInt k) = .error (.unsupportedType (.notInteger (.ofInt k)))))
    ∧ ∀ (x : Binary64) (k : ℤ), toInt (.number x) = .ok k → (ofInt k).equal (.number x) = true := by
  refine ⟨fun x k => toInt_eq_ok_iff, fun x => ?_, fun x guard => ?_, fun k low size => ?_,
    fun x k extracted => ?_⟩
  · rw [toInt_number]
    cases int64? x with
    | none => exact .inr rfl
    | some k => exact .inl ⟨k, rfl⟩
  · obtain ⟨k, denotes, least, most⟩ := isInt64_iff.mp guard
    exact ⟨k, denotes, least, most, (Binary64.toInt64_of_value? denotes).trans (by omega)⟩
  · have nearest := Binary64.nearest_ofInt (i := k) (by omega)
    obtain ⟨j, denotes, within, beyond⟩ := toInt_ofInt low size
    refine ⟨nearest, ⟨fun extracted => ?_, ?_⟩, j, denotes, within, beyond, fun failed => ?_⟩
    · obtain ⟨same, -, most⟩ := toInt_eq_ok_iff.mp extracted
      exact ⟨most, _, same⟩
    · rintro ⟨most, y, hy⟩
      exact toInt_eq_ok_iff.mpr ⟨nearest.denotes hy, low, most⟩
    · by_contra high
      cases (within (by omega)).symm.trans failed
  · obtain ⟨denotes, least, most⟩ := toInt_eq_ok_iff.mp extracted
    have same : (Binary64.ofInt k).value? = some (k : ℚ) :=
      (Binary64.nearest_ofInt (by omega)).denotes denotes
    exact (Binary64.equal_iff same denotes).mpr rfl

/-- The greatest integer of sixty-four bits is rounded to one that cannot be extracted, and the odd
integer after `2 ^ 53` to the even one before it. -/
theorem integers_exact_rounding :
    toInt (ofInt (2 ^ 63 - 1)) = .error (.unsupportedType (.notInteger (.ofInt (2 ^ 63 - 1))))
    ∧ toInt (ofInt (2 ^ 53 + 1)) = .ok (2 ^ 53)
    ∧ (ofInt (2 ^ 53)).equal (ofInt (2 ^ 53 + 1)) = true := by
  obtain ⟨-, -, -, rounds, compares⟩ := integers_exact
  obtain ⟨-, -, j, denotes, -, beyond⟩ := rounds (2 ^ 63 - 1) (by norm_num) (by norm_num)
  have high : j = 2 ^ 63 := by
    exact_mod_cast Option.some.inj (denotes.symm.trans Binary64.value?_greatest)
  have extracted : toInt (ofInt (2 ^ 53 + 1)) = .ok (2 ^ 53) := by decide +kernel
  exact ⟨beyond.mp high.ge, extracted, compares _ _ extracted⟩

end Value

end ScriptBridge

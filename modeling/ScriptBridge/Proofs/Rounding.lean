import Mathlib.Algebra.Order.Field.Power
import Mathlib.Data.Rat.Floor
import Mathlib.Tactic.Linarith
import Mathlib.Tactic.Positivity
import Mathlib.Tactic.Ring
import ScriptBridge.Binary64

/-!
# ScriptBridge.Proofs.Rounding

Integers as doubles.  A finite double denotes a rational number, its `value?`; a double is
`Nearest` to a number if no other is nearer, and if its significand is even in case another one is
as near.

Main facts:

* `Binary64.value?_ofMagnitude` — what a word denotes, by its scale and its significand;
* `Binary64.onGrid` — doubles of some size are multiples of a power of two;
* `Binary64.nearest_ofInt` — the double of an integer is nearest to it.
-/

namespace ScriptBridge

namespace Binary64

/-- The number that a finite double denotes. -/
def value? (x : Binary64) : Option ℚ :=
  match x.shape with
  | .finite negative m e => some ((if negative then -1 else 1) * (m * 2 ^ e))
  | _ => none

/-- Whether a double is nearest to a number, and has an even significand if another one is as
near. -/
def Nearest (q : ℚ) (x : Binary64) : Prop :=
  ∃ v, x.value? = some v ∧ ∀ (y : Binary64) (u : ℚ), y.value? = some u →
    |q - v| ≤ |q - u| ∧ (|q - v| = |q - u| → u = v ∨ x.fraction % 2 = 0)

/-! ## Words and what they denote -/

/-- What a word of a finite double denotes, by its magnitude. -/
theorem shape_ofMagnitude (negative : Bool) {m : Nat} (h : m < infinityMagnitude) :
    (ofMagnitude negative m).shape
        = (if m / 2 ^ 52 = 0 then .finite negative (m % 2 ^ 52) (-1074)
          else .finite negative (2 ^ 52 + m % 2 ^ 52) ((m / 2 ^ 52 : Nat) - 1075))
      ∧ (ofMagnitude negative m).fraction = m % 2 ^ 52 := by
  unfold infinityMagnitude at h
  have bits : (ofMagnitude negative m).bits.toNat = (if negative then 2 ^ 63 else 0) + m := by
    rw [ofMagnitude, UInt64.toNat_ofNat']
    exact Nat.mod_eq_of_lt (by split <;> omega)
  have sign : (ofMagnitude negative m).isNegative = negative := by
    rw [isNegative, bits]
    cases negative <;> simp
    omega
  have exponent : (ofMagnitude negative m).exponentField = m / 2 ^ 52 := by
    rw [exponentField, bits]
    cases negative <;> simp <;> omega
  have fraction : (ofMagnitude negative m).fraction = m % 2 ^ 52 := by
    rw [Binary64.fraction, bits]
    cases negative <;> simp
    omega
  have finite : m / 2 ^ 52 ≠ 2047 := by omega
  refine ⟨?_, fraction⟩
  rw [shape, exponent, fraction, sign, if_neg finite]

/-- The number that a word denotes whose magnitude is made of a scale and a significand, also
when the significand carries into the next exponent. -/
theorem value?_ofMagnitude (negative : Bool) {k : Int} {s : Nat} (low : -1074 ≤ k) (high : k ≤ 900)
    (least : 2 ^ 52 ≤ s) (most : s ≤ 2 ^ 53) :
    (ofMagnitude negative ((k + 1074).toNat * 2 ^ 52 + s)).value?
        = some ((if negative then -1 else 1) * ((s : ℚ) * 2 ^ k))
      ∧ (ofMagnitude negative ((k + 1074).toNat * 2 ^ 52 + s)).fraction % 2 = s % 2 := by
  obtain ⟨j, rfl⟩ : ∃ j : Nat, k = j - 1074 := ⟨(k + 1074).toNat, by omega⟩
  have index : ((j : Int) - 1074 + 1074).toNat = j := by omega
  rw [index]
  have bound : j * 2 ^ 52 + s < infinityMagnitude := by
    unfold infinityMagnitude
    omega
  obtain ⟨shape, fraction⟩ := shape_ofMagnitude negative bound
  obtain below | rfl : s < 2 ^ 53 ∨ s = 2 ^ 53 := by omega
  · have quotient : (j * 2 ^ 52 + s) / 2 ^ 52 = j + 1 := by omega
    have remainder : (j * 2 ^ 52 + s) % 2 ^ 52 = s - 2 ^ 52 := by omega
    rw [value?, fraction, shape, quotient, remainder, if_neg (Nat.succ_ne_zero j)]
    refine ⟨?_, by omega⟩
    have whole : 2 ^ 52 + (s - 2 ^ 52) = s := by omega
    have scale : (((j + 1 : Nat) : Int) - 1075) = j - 1074 := by omega
    simp only [whole, scale]
  · have quotient : (j * 2 ^ 52 + 2 ^ 53) / 2 ^ 52 = j + 2 := by omega
    have remainder : (j * 2 ^ 52 + 2 ^ 53) % 2 ^ 52 = 0 := by omega
    rw [value?, fraction, shape, quotient, remainder, if_neg (Nat.succ_ne_zero (j + 1))]
    refine ⟨?_, by omega⟩
    have scale : (((j + 2 : Nat) : Int) - 1075) = (j - 1074 : Int) + 1 := by omega
    have carried : (((2 ^ 52 + 0 : Nat) : ℚ) * 2 ^ ((j - 1074 : Int) + 1))
        = ((2 ^ 53 : Nat) : ℚ) * 2 ^ (j - 1074 : Int) := by
      rw [zpow_add_one₀ (by norm_num)]
      push_cast
      ring
    simp only [scale, carried]

/-! ## Neighbours -/

/-- A finite double is a multiple of a power of two with a significand of fifty-three bits. -/
theorem value?_bound {y : Binary64} {u : ℚ} (h : y.value? = some u) :
    ∃ (m : Nat) (e : Int), m < 2 ^ 53 ∧ |u| = m * 2 ^ e := by
  have small : y.fraction < 2 ^ 52 := Nat.mod_lt _ (by norm_num)
  have size : ∀ (b : Bool) (m : Nat) (e : Int),
      |(if b then -1 else 1 : ℚ) * (m * 2 ^ e)| = m * 2 ^ e := by
    intro b m e
    have positive : (0 : ℚ) ≤ m * 2 ^ e := by positivity
    cases b <;> simp [abs_of_nonneg positive]
  rw [value?, shape] at h
  split_ifs at h with ones zeros
  · obtain rfl := Option.some.inj h
    exact ⟨_, _, by omega, size ..⟩
  · obtain rfl := Option.some.inj h
    exact ⟨_, _, by omega, size ..⟩

/-- Doubles of some size are multiples of a power of two. -/
theorem onGrid {k : Nat} {u : ℚ} {m : Nat} {e : Int} (small : m < 2 ^ 53)
    (hu : |u| = m * 2 ^ e) (large : 2 ^ (52 + k) ≤ |u|) : ∃ j : ℤ, u = j * 2 ^ k := by
  have above : (k : Int) ≤ e := by
    by_contra below
    have next : e + 1 ≤ k := by omega
    have room : (2 : ℚ) ^ (e + 1) ≤ 2 ^ k := by
      rw [← zpow_natCast]
      exact zpow_le_zpow_right₀ (by norm_num) next
    rw [zpow_add_one₀ (by norm_num)] at room
    have few : (m : ℚ) + 1 ≤ 2 ^ 53 := by exact_mod_cast small
    have unit : (0 : ℚ) < 2 ^ e := by positivity
    rw [hu, pow_add] at large
    nlinarith
  obtain ⟨i, rfl⟩ : ∃ i : Nat, e = i + k := ⟨(e - k).toNat, by omega⟩
  have whole : |u| = (m * 2 ^ i : ℕ) * 2 ^ k := by
    rw [hu, zpow_add₀ (by norm_num), zpow_natCast, zpow_natCast]
    push_cast
    ring
  obtain positive | negative := abs_choice u
  · exact ⟨(m * 2 ^ i : ℕ), by rw [← positive, whole]; push_cast; ring⟩
  · refine ⟨-(m * 2 ^ i : ℕ), ?_⟩
    have : u = -|u| := by rw [negative, neg_neg]
    rw [this, whole]
    push_cast
    ring

/-- The natural number that a quotient is rounded to is nearest to it, and even if another one is
as near. -/
theorem divNearest_nearest {n d : Nat} (positive : 0 < d) (j : ℤ) :
    |(n : ℤ) - divNearest n d * d| ≤ |(n : ℤ) - j * d|
      ∧ (|(n : ℤ) - divNearest n d * d| = |(n : ℤ) - j * d| →
        j = divNearest n d ∨ divNearest n d % 2 = 0) := by
  obtain ⟨q, r, hq, hr, whole, below⟩ :
      ∃ q r : Nat, n / d = q ∧ n % d = r ∧ n = d * q + r ∧ r < d :=
    ⟨_, _, rfl, rfl, (Nat.div_add_mod n d).symm, Nat.mod_lt n positive⟩
  obtain ⟨t, rfl⟩ : ∃ t : ℤ, j = q - t := ⟨q - j, by ring⟩
  have away : (n : ℤ) - (q - t) * d = r + t * d := by
    rw [whole]
    push_cast
    ring
  have unit : (0 : ℤ) < d := by exact_mod_cast positive
  have rest : (r : ℤ) < d := by exact_mod_cast below
  -- how far other multiples are away: those below by the remainder or more, those above by what
  -- is missing to the next multiple or more
  have under : 0 ≤ t → |(r : ℤ) + t * d| = r + t * d ∧ r ≤ r + t * d ∧ (t ≠ 0 → r < r + t * d) := by
    intro ht
    have more : 0 ≤ t * d := mul_nonneg ht unit.le
    refine ⟨abs_of_nonneg (by omega), by omega, fun ne => ?_⟩
    have : 0 < t * d := mul_pos (by omega) unit
    omega
  have above : t < 0 → |(r : ℤ) + t * d| = -(r + t * d) ∧ d - r ≤ -(r + t * d)
      ∧ (t ≠ -1 → d - r < -(r + t * d)) := by
    intro ht
    have less : (t + 1) * d ≤ 0 := mul_nonpos_of_nonpos_of_nonneg (by omega) unit.le
    rw [add_mul, one_mul] at less
    refine ⟨abs_of_nonpos (by omega), by omega, fun ne => ?_⟩
    have : (t + 1) * d < 0 := mul_neg_of_neg_of_pos (by omega) unit
    rw [add_mul, one_mul] at this
    omega
  have down : (n : ℤ) - q * d = r := by
    rw [whole]
    push_cast
    ring
  have up : (n : ℤ) - (q + 1 : ℤ) * d = -(d - r) := by
    rw [whole]
    push_cast
    ring
  have chosen : (divNearest n d = q ∧ 2 * r < d ∧ |(n : ℤ) - divNearest n d * d| = r)
      ∨ (divNearest n d = q + 1 ∧ d < 2 * r ∧ |(n : ℤ) - divNearest n d * d| = d - r)
      ∨ (divNearest n d % 2 = 0 ∧ 2 * r = d ∧ |(n : ℤ) - divNearest n d * d| = r) := by
    rw [divNearest, hq, hr]
    split_ifs with small big
    · exact Or.inl ⟨rfl, small, by rw [down, abs_of_nonneg (by omega)]⟩
    · refine Or.inr (Or.inl ⟨rfl, big, ?_⟩)
      push_cast
      rw [up, abs_of_nonpos (by omega), neg_neg]
    · refine Or.inr (Or.inr ⟨by omega, by omega, ?_⟩)
      obtain even | odd : q % 2 = 0 ∨ q % 2 = 1 := by omega
      · rw [even, add_zero, down, abs_of_nonneg (by omega)]
      · rw [odd]
        push_cast
        rw [up, abs_of_nonpos (by omega)]
        omega
  rw [away]
  obtain negative | nonnegative := lt_or_ge t 0
  · obtain ⟨size, least, strict⟩ := above negative
    rw [size]
    obtain ⟨hs, small, error⟩ | ⟨hs, big, error⟩ | ⟨even, tie, error⟩ := chosen
    · omega
    · refine ⟨by omega, fun eq => Or.inl ?_⟩
      by_contra ne
      have := strict (by omega)
      omega
    · exact ⟨by omega, fun _ => Or.inr even⟩
  · obtain ⟨size, least, strict⟩ := under nonnegative
    rw [size]
    obtain ⟨hs, small, error⟩ | ⟨hs, big, error⟩ | ⟨even, tie, error⟩ := chosen
    · refine ⟨by omega, fun eq => Or.inl ?_⟩
      by_contra ne
      have := strict (by omega)
      omega
    · omega
    · exact ⟨by omega, fun _ => Or.inr even⟩

/-! ## Integers -/

/-- The rounded significand of a natural number is nearest to it among all finite doubles. -/
theorem divNearest_nearest_value {n k : Nat} (least : 2 ^ (52 + k) ≤ n) {u : ℚ} {m : Nat} {e : Int}
    (small : m < 2 ^ 53) (hu : |u| = m * 2 ^ e) :
    |(n : ℚ) - divNearest n (2 ^ k) * 2 ^ k| ≤ |(n : ℚ) - u|
      ∧ (|(n : ℚ) - divNearest n (2 ^ k) * 2 ^ k| = |(n : ℚ) - u| →
        u = divNearest n (2 ^ k) * 2 ^ k ∨ divNearest n (2 ^ k) % 2 = 0) := by
  have integral : ∀ j : ℤ, |(n : ℚ) - divNearest n (2 ^ k) * 2 ^ k| ≤ |(n : ℚ) - j * 2 ^ k|
      ∧ (|(n : ℚ) - divNearest n (2 ^ k) * 2 ^ k| = |(n : ℚ) - j * 2 ^ k| →
        j = divNearest n (2 ^ k) ∨ divNearest n (2 ^ k) % 2 = 0) := by
    intro j
    have nearest := divNearest_nearest (n := n) (d := 2 ^ k) (by positivity) j
    push_cast at nearest
    exact_mod_cast nearest
  by_cases large : (2 : ℚ) ^ (52 + k) ≤ |u|
  · obtain ⟨j, rfl⟩ := onGrid small hu large
    obtain ⟨near, tie⟩ := integral j
    refine ⟨near, fun eq => (tie eq).imp_left fun same => ?_⟩
    rw [same]
    push_cast
    rfl
  · -- smaller doubles are below the power of two, which is a multiple too
    have near := (integral (2 ^ 52 : ℕ)).1
    have power : ((2 ^ 52 : ℕ) : ℤ) * (2 : ℚ) ^ k = 2 ^ (52 + k) := by
      rw [pow_add]
      push_cast
      ring
    rw [power] at near
    have above : (2 : ℚ) ^ (52 + k) ≤ n := by exact_mod_cast least
    rw [abs_of_nonneg (sub_nonneg.mpr above)] at near
    have below : u < 2 ^ (52 + k) := lt_of_le_of_lt (le_abs_self u) (not_le.mp large)
    have far : (n : ℚ) - 2 ^ (52 + k) < |(n : ℚ) - u| :=
      lt_of_lt_of_le (by linarith) (le_abs_self _)
    have strict := lt_of_le_of_lt near far
    exact ⟨strict.le, fun eq => absurd eq strict.ne⟩

/-- The scale of a natural number is that of its leading bit. -/
theorem scaleOf_nat {n : Nat} (positive : n ≠ 0) : scaleOf n 1 = (Nat.log2 n : Int) - 52 := by
  have lower := Nat.log2_self_le positive
  have one : Nat.log2 1 = 0 := rfl
  have fits : if (0 : Int) ≤ (Nat.log2 n : Int) - 52 then
      2 ^ 52 * 2 ^ ((Nat.log2 n : Int) - 52).toNat ≤ n
      else 2 ^ 52 ≤ n * 2 ^ (-((Nat.log2 n : Int) - 52)).toNat := by
    split_ifs with wide
    · rw [← pow_add]
      exact le_of_eq_of_le (congrArg _ (by omega)) lower
    · calc 2 ^ 52 = 2 ^ Nat.log2 n * 2 ^ (-((Nat.log2 n : Int) - 52)).toNat := by
            rw [← pow_add]
            exact congrArg _ (by omega)
        _ ≤ _ := Nat.mul_le_mul_right _ lower
  rw [scaleOf]
  simp only [one, Nat.cast_zero, sub_zero, one_mul, mul_one]
  rw [if_pos fits]
  omega

/-- The significand that a natural number is rounded to, at its scale: it is exact up to
fifty-three bits, and rounded to nearest beyond. -/
theorem significandAt_nat {n : Nat} (positive : n ≠ 0) :
    2 ^ 52 ≤ significandAt n 1 ((Nat.log2 n : Int) - 52)
      ∧ significandAt n 1 ((Nat.log2 n : Int) - 52) ≤ 2 ^ 53
      ∧ (((significandAt n 1 ((Nat.log2 n : Int) - 52) : Nat) : ℚ) * 2 ^ ((Nat.log2 n : Int) - 52) = n
        ∨ ∃ k : Nat, 2 ^ (52 + k) ≤ n ∧ (Nat.log2 n : Int) - 52 = k
          ∧ significandAt n 1 ((Nat.log2 n : Int) - 52) = divNearest n (2 ^ k)) := by
  have lower := Nat.log2_self_le positive
  have upper : n < 2 ^ (Nat.log2 n + 1) := Nat.lt_log2_self
  rw [significandAt]
  split_ifs with wide
  · obtain ⟨k, hk⟩ : ∃ k : Nat, Nat.log2 n = 52 + k := ⟨Nat.log2 n - 52, by omega⟩
    have scale : ((Nat.log2 n : Int) - 52) = k := by omega
    rw [hk] at lower upper
    rw [scale, Int.toNat_natCast, one_mul]
    have least : 2 ^ 52 ≤ n / 2 ^ k := by
      rw [Nat.le_div_iff_mul_le (by positivity), ← pow_add]
      exact lower
    have most : n / 2 ^ k < 2 ^ 53 := by
      rw [Nat.div_lt_iff_lt_mul (by positivity), ← pow_add]
      exact lt_of_lt_of_eq upper (congrArg _ (by omega))
    have near : n / 2 ^ k ≤ divNearest n (2 ^ k) ∧ divNearest n (2 ^ k) ≤ 2 ^ 53 := by
      rw [divNearest]
      split_ifs <;> omega
    exact ⟨by omega, near.2, Or.inr ⟨k, lower, rfl, rfl⟩⟩
  · obtain ⟨k, hk⟩ : ∃ k : Nat, Nat.log2 n + k = 52 := ⟨52 - Nat.log2 n, by omega⟩
    have scale : ((Nat.log2 n : Int) - 52) = -k := by omega
    have exact' : divNearest (n * 2 ^ k) 1 = n * 2 ^ k := by
      simp [divNearest, Nat.mod_one]
    rw [scale, neg_neg, Int.toNat_natCast, exact']
    refine ⟨?_, ?_, Or.inl ?_⟩
    · calc 2 ^ 52 = 2 ^ Nat.log2 n * 2 ^ k := by rw [← pow_add, hk]
        _ ≤ _ := Nat.mul_le_mul_right _ lower
    · calc n * 2 ^ k ≤ 2 ^ (Nat.log2 n + 1) * 2 ^ k := Nat.mul_le_mul_right _ upper.le
        _ = 2 ^ 53 := by
          rw [← pow_add]
          exact congrArg _ (by omega)
    · push_cast
      rw [mul_assoc, zpow_neg, zpow_natCast, mul_inv_cancel₀ (by positivity), mul_one]

/-- What the double of a natural number that is not zero denotes, with either sign. -/
theorem value?_ofRatio (negative : Bool) {n : Nat} (nonzero : n ≠ 0) (bound : n < 2 ^ 64) :
    (ofRatio negative n 1).value? = some ((if negative then -1 else 1)
        * ((significandAt n 1 ((Nat.log2 n : Int) - 52) : ℚ) * 2 ^ ((Nat.log2 n : Int) - 52)))
      ∧ (ofRatio negative n 1).fraction % 2 = significandAt n 1 ((Nat.log2 n : Int) - 52) % 2 := by
  obtain ⟨least, most, -⟩ := significandAt_nat nonzero
  have size : Nat.log2 n < 64 := (Nat.log2_lt nonzero).mpr bound
  set s := significandAt n 1 ((Nat.log2 n : Int) - 52) with hs
  have word : ofRatio negative n 1
      = ofMagnitude negative (((Nat.log2 n : Int) - 52 + 1074).toNat * 2 ^ 52 + s) := by
    rw [ofRatio, if_neg nonzero, scaleOf_nat nonzero]
    dsimp only
    rw [← hs, Nat.min_eq_left]
    unfold infinityMagnitude
    omega
  rw [word]
  exact value?_ofMagnitude negative (by omega) (by omega) least most

/-- The double of a natural number, with either sign, is nearest to the number with that sign. -/
theorem nearest_ofRatio (negative : Bool) {n : Nat} (bound : n < 2 ^ 64) :
    Nearest ((if negative then -1 else 1) * n) (ofRatio negative n 1) := by
  by_cases zero : n = 0
  · subst zero
    obtain ⟨shape, -⟩ := shape_ofMagnitude negative (m := 0) (by decide)
    refine ⟨0, ?_, fun y u hu => ?_⟩
    · rw [value?, ofRatio, if_pos rfl, shape]
      simp
    · simp only [Nat.cast_zero, mul_zero, sub_zero, abs_zero, zero_sub, abs_neg]
      exact ⟨abs_nonneg u, fun eq => Or.inl (abs_eq_zero.mp eq.symm)⟩
  · obtain ⟨-, -, rounded⟩ := significandAt_nat zero
    obtain ⟨value, parity⟩ := value?_ofRatio negative zero bound
    set s := significandAt n 1 ((Nat.log2 n : Int) - 52)
    refine ⟨_, value, fun y u hu => ?_⟩
    obtain ⟨m, e, small, size⟩ := value?_bound hu
    -- with the sign taken off on both sides, the numbers are as far from each other
    have unsigned : ∀ a : ℚ, |(if negative then -1 else 1) * (n : ℚ) - a|
        = |(n : ℚ) - (if negative then -1 else 1) * a| := by
      intro a
      cases negative
      · simp
      · simp only [if_true, neg_one_mul]
        rw [abs_sub_comm]
        congr 1
        ring
    have back : (if negative then -1 else 1 : ℚ) * ((if negative then -1 else 1)
        * ((s : ℚ) * 2 ^ ((Nat.log2 n : Int) - 52))) = s * 2 ^ ((Nat.log2 n : Int) - 52) := by
      cases negative <;> simp
    rw [unsigned, unsigned, back, parity]
    obtain exactly | ⟨k, leading, scale, rounding⟩ := rounded
    · rw [exactly, sub_self, abs_zero]
      refine ⟨abs_nonneg _, fun eq => Or.inl ?_⟩
      have same := sub_eq_zero.mp (abs_eq_zero.mp eq.symm)
      rw [same]
      cases negative <;> simp
    · have signed : |(if negative then -1 else 1 : ℚ) * u| = m * 2 ^ e := by
        rw [← size]
        cases negative <;> simp
      obtain ⟨near, tie⟩ := divNearest_nearest_value leading small signed
      rw [scale, zpow_natCast, rounding]
      refine ⟨near, fun eq => (tie eq).imp_left fun same => ?_⟩
      rw [← same]
      cases negative <;> simp

/-- The double of an integer is nearest to it. -/
theorem nearest_ofInt {i : Int} (size : i.natAbs < 2 ^ 64) : Nearest i (ofInt i) := by
  have nearest := nearest_ofRatio (decide (i < 0)) size
  have signed : ((if decide (i < 0) then -1 else 1 : ℚ)) * i.natAbs = i := by
    by_cases negative : i < 0
    · rw [if_pos (decide_eq_true negative), Nat.cast_natAbs, abs_of_neg negative]
      push_cast
      ring
    · rw [if_neg (by simpa using negative), Nat.cast_natAbs, abs_of_nonneg (by omega), one_mul]
  rwa [signed] at nearest

end Binary64

end ScriptBridge

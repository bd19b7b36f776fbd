import MessageQuery.Binary64.Shortest
import MessageQuery.Proofs.Binary64.Rounding

/-!
# Shortest decimals read back

A decimal is rounded by its value and by the count of its digits before the point, and both stay
the same when its last zeros are moved into the exponent. The search keeps only decimals that read
back; if it should find none, all digits of the number are left, which are its exact value.
-/

namespace MessageQuery.Binary64

variable {negative : Bool} {coefficient : Nat} {exponent : Int}

/-! ## Digits before the point -/

theorem decimalLength_ten_mul (nonzero : coefficient ≠ 0) :
    decimalLength (10 * coefficient) = decimalLength coefficient + 1 := by
  rw [decimalLength, if_neg (by omega), Nat.mul_div_cancel_left _ (by decide)]

theorem decimalLength_mul_pow (nonzero : coefficient ≠ 0) (count : Nat) :
    decimalLength (coefficient * 10 ^ count) = decimalLength coefficient + count := by
  induction count with
  | zero => rw [Nat.pow_zero, Nat.mul_one, Nat.add_zero]
  | succ count ih =>
      have positive : coefficient * 10 ^ count ≠ 0 :=
        Nat.mul_ne_zero nonzero (Nat.pow_pos (by decide)).ne'
      rw [Nat.pow_succ, ← Nat.mul_assoc, Nat.mul_comm _ 10, decimalLength_ten_mul positive, ih,
        Nat.add_assoc]

theorem decimalLength_pos (n : Nat) : 0 < decimalLength n := by
  rw [decimalLength]
  split <;> omega

theorem decimalLength_bounds {n : Nat} (nonzero : n ≠ 0) :
    10 ^ (decimalLength n - 1) ≤ n ∧ n < 10 ^ decimalLength n := by
  induction n using Nat.strongRecOn with
  | _ n ih =>
      rw [decimalLength]
      split
      · omega
      · next large =>
          obtain ⟨low, high⟩ := ih (n / 10) (by omega) (by omega)
          have positive := decimalLength_pos (n / 10)
          have next : 10 ^ decimalLength (n / 10) = 10 ^ (decimalLength (n / 10) - 1) * 10 := by
            rw [← Nat.pow_succ]
            congr 1
            omega
          rw [Nat.add_sub_cancel, Nat.pow_succ]
          omega

/-! ## Values -/

theorem ofDecimal_zero (negative : Bool) (exponent : Int) :
    ofDecimal negative 0 exponent = zero negative := by
  simp [ofDecimal]

theorem ofDecimal_eq (nonzero : coefficient ≠ 0)
    (low : -330 ≤ decimalLength coefficient + exponent)
    (high : decimalLength coefficient + exponent ≤ 310) :
    ofDecimal negative coefficient exponent =
      ofMagnitude negative (coefficient * 10 ^ exponent) := by
  have inside : ¬(decide (coefficient = 0) ||
      decide (decimalLength coefficient + exponent < -330)) = true := by
    rw [Bool.or_eq_true, decide_eq_true_iff, decide_eq_true_iff]
    omega
  unfold ofDecimal
  dsimp only
  rw [if_neg inside, if_neg (by omega)]
  split
  · next nonneg =>
      obtain ⟨k, rfl⟩ := Int.eq_ofNat_of_zero_le nonneg
      rw [ofRatio_eq Nat.one_pos, Nat.cast_one, div_one, Int.toNat_natCast, Nat.pow_eq,
        zpow_natCast]
      norm_cast
  · next negativeExponent =>
      obtain ⟨k, isNeg⟩ := Int.eq_ofNat_of_zero_le (by omega : 0 ≤ -exponent)
      obtain rfl : exponent = -(k : Int) := by omega
      have positive : 0 < 10 ^ k := Nat.pow_pos (by decide)
      rw [neg_neg, Int.toNat_natCast, Nat.pow_eq, ofRatio_eq positive, zpow_neg, zpow_natCast,
        div_eq_mul_inv, Nat.cast_pow, Nat.cast_ofNat]

/-- Decimals of one value and one order are rounded alike. -/
theorem ofDecimal_congr {other : Nat} {power : Int} (nonzero : coefficient ≠ 0)
    (otherNonzero : other ≠ 0)
    (order : (decimalLength coefficient + exponent : Int) = decimalLength other + power)
    (value : (coefficient * 10 ^ exponent : ℚ) = other * 10 ^ power) :
    ofDecimal negative coefficient exponent = ofDecimal negative other power := by
  by_cases low : -330 ≤ (decimalLength coefficient + exponent : Int)
  · by_cases high : (decimalLength coefficient + exponent : Int) ≤ 310
    · rw [ofDecimal_eq nonzero low high, ofDecimal_eq otherNonzero (order ▸ low) (order ▸ high),
        value]
    · unfold ofDecimal
      simp only [← order, nonzero, otherNonzero, decide_false, Bool.false_or, decide_eq_true_eq]
      rw [if_neg (by omega), if_pos (by omega), if_neg (by omega), if_pos (by omega)]
  · unfold ofDecimal
    simp only [← order, nonzero, otherNonzero, decide_false, Bool.false_or, decide_eq_true_eq]
    rw [if_pos (by omega), if_pos (by omega)]

/-- Zeros at the end of the coefficient can be moved into the exponent. -/
theorem ofDecimal_mul_pow (negative : Bool) (coefficient count : Nat) (exponent : Int) :
    ofDecimal negative (coefficient * 10 ^ count) (exponent - count) =
      ofDecimal negative coefficient exponent := by
  by_cases isZero : coefficient = 0
  · rw [isZero, Nat.zero_mul, ofDecimal_zero, ofDecimal_zero]
  · have tenPow : 10 ^ count ≠ 0 := (Nat.pow_pos (by decide)).ne'
    apply ofDecimal_congr (Nat.mul_ne_zero isZero tenPow) isZero
    · rw [decimalLength_mul_pow isZero]
      omega
    · have ten : (10 : ℚ) ≠ 0 := by norm_num
      rw [Nat.cast_mul, Nat.cast_pow, Nat.cast_ofNat, mul_assoc, ← zpow_natCast, ← zpow_add₀ ten]
      congr 2
      omega

/-! ## All digits -/

theorem pow_two_le : (2 : ℚ) ^ (93 * 11 + 1) ≤ 10 ^ (28 * 11 + 2) := by
  rw [pow_add, pow_add, pow_mul, pow_mul]
  exact mul_le_mul (pow_le_pow_left₀ (by norm_num) (by norm_num) 11) (by norm_num) (by norm_num)
    (by norm_num)

theorem pow_two_least_le : (2 : ℚ) ^ (93 * 11 + 51) ≤ 10 ^ (28 * 11 + 23) := by
  rw [pow_add, pow_add, pow_mul, pow_mul]
  exact mul_le_mul (pow_le_pow_left₀ (by norm_num) (by norm_num) 11) (by norm_num) (by norm_num)
    (by norm_num)

theorem magnitude_bounds {e : Fin 2047} {f : Fin fractionRange} (nonzero : mantissa e f ≠ 0) :
    (10 : ℚ) ^ (-331 : Int) ≤ magnitude e f ∧ magnitude e f < 10 ^ (310 : Int) := by
  have low : -1074 ≤ scale e := by
    unfold scale
    omega
  have high : scale e ≤ 971 := by
    unfold scale
    omega
  unfold magnitude
  constructor
  · have least : (1 : ℚ) ≤ mantissa e f := by exact_mod_cast Nat.pos_of_ne_zero nonzero
    calc (10 : ℚ) ^ (-331 : Int) ≤ 2 ^ (-1074 : Int) := by
          rw [zpow_neg, zpow_neg]
          apply inv_anti₀ (zpow_pos two_pos _)
          rw [zpow_ofNat, zpow_ofNat]
          exact pow_two_least_le
      _ ≤ 2 ^ scale e := zpow_le_zpow_right₀ one_le_two low
      _ ≤ mantissa e f * 2 ^ scale e := le_mul_of_one_le_left (zpow_nonneg zero_le_two _) least
  · have most : (mantissa e f : ℚ) < 2 ^ (53 : Int) := by exact_mod_cast mantissa_lt e f
    calc (mantissa e f * 2 ^ scale e : ℚ) < 2 ^ (53 : Int) * 2 ^ scale e :=
          mul_lt_mul_of_pos_right most (zpow_pos two_pos _)
      _ ≤ 2 ^ (53 : Int) * 2 ^ (971 : Int) :=
          mul_le_mul_of_nonneg_left (zpow_le_zpow_right₀ one_le_two high)
            (zpow_nonneg zero_le_two _)
      _ = 2 ^ (1024 : Int) := by
          rw [← zpow_add₀ two_ne_zero]
          rfl
      _ ≤ 10 ^ (310 : Int) := by
          rw [zpow_ofNat, zpow_ofNat]
          exact pow_two_le

/-- A decimal whose value is a finite number is rounded to the number. -/
theorem ofDecimal_magnitude (negative : Bool) {e : Fin 2047} {f : Fin fractionRange}
    (nonzero : coefficient ≠ 0)
    (value : (coefficient * 10 ^ exponent : ℚ) = magnitude e f) :
    ofDecimal negative coefficient exponent = .finite negative e f := by
  have ten : (10 : ℚ) ≠ 0 := by norm_num
  have scaled : ∀ power : Int, (0 : ℚ) < 10 ^ power := fun power => zpow_pos (by norm_num) power
  have mantissaNonzero : mantissa e f ≠ 0 := by
    intro isZero
    rw [magnitude, isZero, Nat.cast_zero, zero_mul] at value
    exact mul_ne_zero (by exact_mod_cast nonzero) (scaled exponent).ne' value
  obtain ⟨least, most⟩ := magnitude_bounds mantissaNonzero
  obtain ⟨atLeast, below⟩ := decimalLength_bounds nonzero
  have positive := decimalLength_pos coefficient
  rw [← value] at least most
  have low : -331 < decimalLength coefficient + exponent := by
    rw [← zpow_lt_zpow_iff_right₀ (by norm_num : (1 : ℚ) < 10), zpow_add₀ ten]
    have cast : (coefficient : ℚ) < 10 ^ (decimalLength coefficient : Int) := by
      exact_mod_cast below
    exact lt_of_le_of_lt least (mul_lt_mul_of_pos_right cast (scaled exponent))
  have high : decimalLength coefficient - 1 + exponent < 310 := by
    rw [← zpow_lt_zpow_iff_right₀ (by norm_num : (1 : ℚ) < 10), zpow_add₀ ten]
    have cast : (10 : ℚ) ^ (decimalLength coefficient - 1 : Int) ≤ coefficient := by
      rw [show (decimalLength coefficient - 1 : Int) = (decimalLength coefficient - 1 : Nat) by
        omega]
      exact_mod_cast atLeast
    exact lt_of_le_of_lt (mul_le_mul_of_nonneg_right cast (scaled exponent).le) most
  rw [ofDecimal_eq nonzero (by omega) (by omega), value, ofMagnitude_magnitude]

theorem exactDecimal_value (e f : Nat) :
    ((exactDecimal e f).coefficient * 10 ^ (exactDecimal e f).exponent : ℚ) = magnitude e f := by
  unfold exactDecimal magnitude
  dsimp only
  generalize scale e = s
  split
  · next nonneg =>
      obtain ⟨k, rfl⟩ := Int.eq_ofNat_of_zero_le nonneg
      rw [Int.toNat_natCast, Nat.pow_eq, zpow_zero, mul_one, zpow_natCast]
      norm_cast
  · next isNegative =>
      obtain ⟨k, isNeg⟩ := Int.eq_ofNat_of_zero_le (by omega : 0 ≤ -s)
      obtain rfl : s = -(k : Int) := by omega
      have five : (5 : ℚ) ≠ 0 := by norm_num
      rw [neg_neg, Int.toNat_natCast, Nat.pow_eq, zpow_neg, zpow_natCast, zpow_neg, zpow_natCast,
        show (10 : ℚ) = 2 * 5 by norm_num, mul_pow]
      push_cast
      field_simp

theorem ofDecimal_exactDecimal (negative : Bool) (e : Fin 2047) (f : Fin fractionRange) :
    ofDecimal negative (exactDecimal e f).coefficient (exactDecimal e f).exponent =
      .finite negative e f := by
  have value := exactDecimal_value e f
  by_cases isZero : (exactDecimal e f).coefficient = 0
  · rw [isZero, Nat.cast_zero, zero_mul] at value
    rw [isZero, ofDecimal_zero, ← ofMagnitude_magnitude negative e f, ← value]
    exact (if_pos rfl).symm
  · exact ofDecimal_magnitude negative isZero value

/-! ## Shortest digits -/

theorem ofDecimal_of_gridHit? {x : Binary64} {rule : HalfRule} {num den : Nat} {hit : Decimal}
    (found : gridHit? x rule num den exponent = some hit) :
    ofDecimal false hit.coefficient hit.exponent = x := by
  unfold gridHit? at found
  dsimp only at found
  split at found
  · next low =>
      cases found
      exact of_decide_eq_true (Bool.and_eq_true_iff.mp low).1
  · split at found
    · next high =>
        cases found
        exact high
    · cases found

theorem ofDecimal_of_searchDigits {x : Binary64} {rule : HalfRule} {num den : Nat} {order : Int}
    {hit : Decimal} {fuel count : Nat}
    (found : searchDigits x rule num den order fuel count = some hit) :
    ofDecimal false hit.coefficient hit.exponent = x := by
  induction fuel generalizing count with
  | zero => cases found
  | succ fuel ih =>
      unfold searchDigits at found
      split at found
      · next first isHit =>
          cases found
          exact ofDecimal_of_gridHit? isHit
      · exact ih found

theorem ofDecimal_dropTrailingZeros (negative : Bool) (coefficient : Nat) (exponent : Int) :
    ofDecimal negative (dropTrailingZeros coefficient exponent).coefficient
        (dropTrailingZeros coefficient exponent).exponent =
      ofDecimal negative coefficient exponent := by
  induction coefficient using Nat.strongRecOn generalizing exponent with
  | _ coefficient ih =>
      rw [dropTrailingZeros]
      split
      · next ends =>
          have whole : coefficient / 10 * 10 ^ 1 = coefficient := by omega
          have moved := ofDecimal_mul_pow negative (coefficient / 10) 1 (exponent + 1)
          rw [whole, Nat.cast_one, Int.add_sub_cancel] at moved
          rw [ih (coefficient / 10) (by omega), moved]
      · rfl

/-! ## Signs -/

/-- The number with the given sign. -/
def signed (negative : Bool) : Binary64 → Binary64
  | .nan => .nan
  | .infinite _ => .infinite negative
  | .finite _ e f => .finite negative e f

theorem ofMagnitudeCode_signed (negative : Bool) (code : Nat) :
    ofMagnitudeCode negative code = signed negative (ofMagnitudeCode false code) := by
  unfold ofMagnitudeCode
  split <;> rfl

theorem ofRatio_signed (negative : Bool) (num den : Nat) :
    ofRatio negative num den = signed negative (ofRatio false num den) := by
  unfold ofRatio
  split
  · rfl
  · exact ofMagnitudeCode_signed negative _

theorem ofDecimal_signed (negative : Bool) (coefficient : Nat) (exponent : Int) :
    ofDecimal negative coefficient exponent =
      signed negative (ofDecimal false coefficient exponent) := by
  unfold ofDecimal
  dsimp only
  split
  · rfl
  · split
    · rfl
    · split
      · exact ofRatio_signed negative _ _
      · exact ofRatio_signed negative _ _

/-- The shortest digits of a finite number are read back as the number. -/
theorem ofDecimal_shortest (negative : Bool) (rule : HalfRule) (e : Fin 2047)
    (f : Fin fractionRange) :
    ofDecimal negative (shortest rule e f).coefficient (shortest rule e f).exponent =
      .finite negative e f := by
  unfold shortest
  dsimp only
  rw [ofDecimal_dropTrailingZeros]
  cases found : searchDigits (.finite false e f) rule (ratio e f).1 (ratio e f).2
      (decimalOrder (ratio e f).1 (ratio e f).2) 17 1 with
  | none => exact ofDecimal_exactDecimal negative e f
  | some hit =>
      rw [Option.getD_some, ofDecimal_signed, ofDecimal_of_searchDigits found]
      rfl

end MessageQuery.Binary64

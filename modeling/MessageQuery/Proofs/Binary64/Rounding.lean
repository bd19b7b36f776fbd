import Mathlib.Algebra.Order.Floor.Semifield
import Mathlib.Data.Int.Log
import Mathlib.Data.Rat.Floor
import Mathlib.Tactic.FieldSimp
import Mathlib.Tactic.Linarith
import Mathlib.Tactic.NormNum
import Mathlib.Tactic.Positivity
import MessageQuery.Binary64.Basic

/-!
# Rounding

Numbers are rounded from a numerator and a denominator, but the result depends on their ratio
only: its binary order gives the scale, and the ratio over the scale is taken to the nearest
natural number. A ratio that is a binary64 number is rounded to that number.
-/

namespace MessageQuery.Binary64

/-! ## Ratios -/

theorem scaledRatio_spec (num : Nat) {den : Nat} (positive : 0 < den) (s : Int) :
    0 < (scaledRatio num den s).2 ∧
      ((scaledRatio num den s).1 : ℚ) / (scaledRatio num den s).2 = num / den / 2 ^ s := by
  have denominator : (den : ℚ) ≠ 0 := by exact_mod_cast positive.ne'
  unfold scaledRatio
  split
  · next nonneg =>
      obtain ⟨k, rfl⟩ := Int.eq_ofNat_of_zero_le nonneg
      refine ⟨Nat.mul_pos positive (Nat.pow_pos Nat.two_pos), ?_⟩
      simp only [Int.toNat_natCast, Nat.pow_eq, Nat.cast_mul, Nat.cast_pow, zpow_natCast]
      rw [div_div]
      norm_cast
  · next negative =>
      obtain ⟨k, isNeg⟩ := Int.eq_ofNat_of_zero_le (by omega : 0 ≤ -s)
      obtain rfl : s = -(k : Int) := by omega
      refine ⟨positive, ?_⟩
      simp only [neg_neg, Int.toNat_natCast, Nat.pow_eq, Nat.cast_mul, Nat.cast_pow, zpow_neg,
        zpow_natCast]
      field_simp
      norm_cast

/-- The scale at which a magnitude has 53 bits, or the least scale there is. -/
def scaleOf (q : ℚ) : Int :=
  max (Int.log 2 q - 52) (-1074)

theorem zpow_log2_le {n : Nat} (positive : n ≠ 0) :
    (2 : ℚ) ^ (Nat.log2 n : Int) ≤ n ∧ (n : ℚ) < 2 ^ (Nat.log2 n + 1 : Int) := by
  constructor
  · exact_mod_cast Nat.log2_self_le positive
  · exact_mod_cast Nat.lt_log2_self

/-- The orders of numerator and denominator leave two possible orders of their ratio. -/
theorem log_div_bounds {num den : Nat} (numerator : num ≠ 0) (denominator : den ≠ 0) :
    (Nat.log2 num : Int) - Nat.log2 den - 1 ≤ Int.log 2 (num / den : ℚ) ∧
      Int.log 2 (num / den : ℚ) ≤ (Nat.log2 num : Int) - Nat.log2 den := by
  obtain ⟨numLow, numHigh⟩ := zpow_log2_le numerator
  obtain ⟨denLow, denHigh⟩ := zpow_log2_le denominator
  have denPositive : (0 : ℚ) < den := by exact_mod_cast Nat.pos_of_ne_zero denominator
  have positive : (0 : ℚ) < num / den :=
    div_pos (by exact_mod_cast Nat.pos_of_ne_zero numerator) denPositive
  constructor
  · rw [← Int.zpow_le_iff_le_log one_lt_two positive, Nat.cast_ofNat, le_div_iff₀ denPositive]
    calc (2 : ℚ) ^ ((Nat.log2 num : Int) - Nat.log2 den - 1) * den
        ≤ 2 ^ ((Nat.log2 num : Int) - Nat.log2 den - 1) * 2 ^ (Nat.log2 den + 1 : Int) := by
          exact mul_le_mul_of_nonneg_left denHigh.le (zpow_nonneg zero_le_two _)
      _ = 2 ^ (Nat.log2 num : Int) := by
          rw [← zpow_add₀ two_ne_zero]
          congr 1
          omega
      _ ≤ num := numLow
  · apply Int.lt_add_one_iff.mp
    rw [← Int.lt_zpow_iff_log_lt one_lt_two positive, Nat.cast_ofNat, div_lt_iff₀ denPositive]
    calc (num : ℚ) < 2 ^ (Nat.log2 num + 1 : Int) := numHigh
      _ = 2 ^ ((Nat.log2 num : Int) - Nat.log2 den + 1) * 2 ^ (Nat.log2 den : Int) := by
          rw [← zpow_add₀ two_ne_zero]
          congr 1
          omega
      _ ≤ 2 ^ ((Nat.log2 num : Int) - Nat.log2 den + 1) * den :=
          mul_le_mul_of_nonneg_left denLow (zpow_nonneg zero_le_two _)

theorem scaleOfRatio_eq {num den : Nat} (numerator : num ≠ 0) (denominator : den ≠ 0) :
    scaleOfRatio num den = scaleOf (num / den) := by
  have positive : (0 : ℚ) < num / den :=
    div_pos (by exact_mod_cast Nat.pos_of_ne_zero numerator)
      (by exact_mod_cast Nat.pos_of_ne_zero denominator)
  obtain ⟨low, high⟩ := log_div_bounds numerator denominator
  unfold scaleOfRatio scaleOf
  dsimp only
  generalize isGuess : (Nat.log2 num : Int) - Nat.log2 den - 53 = guess
  obtain ⟨bottomPositive, ratio⟩ := scaledRatio_spec num (Nat.pos_of_ne_zero denominator) guess
  have bottom : (0 : ℚ) < (scaledRatio num den guess).2 := by exact_mod_cast bottomPositive
  have small : (scaledRatio num den guess).1 / (scaledRatio num den guess).2 <
      2 * fractionRange ↔ Int.log 2 (num / den : ℚ) < guess + 53 := by
    rw [Nat.div_lt_iff_lt_mul bottomPositive, ← Int.lt_zpow_iff_log_lt one_lt_two positive,
      Nat.cast_ofNat, zpow_add₀ two_ne_zero, ← div_lt_iff₀' (zpow_pos two_pos _), ← ratio,
      div_lt_iff₀ bottom]
    norm_cast
  congr 1
  split
  · next fits =>
      have below := small.mp fits
      omega
  · next large =>
      have above := mt small.mpr large
      omega

/-- The natural number nearest to a magnitude, a half going to the even neighbour. -/
def nearest (q : ℚ) : Nat :=
  if q - ⌊q⌋₊ < 1 / 2 then ⌊q⌋₊
  else if 1 / 2 < q - ⌊q⌋₊ then ⌊q⌋₊ + 1
  else ⌊q⌋₊ + ⌊q⌋₊ % 2

theorem nearestQuotient_eq {num den : Nat} (positive : 0 < den) :
    nearestQuotient num den = nearest (num / den) := by
  have denominator : (0 : ℚ) < den := by exact_mod_cast positive
  have part : (num / den : ℚ) - (num / den : Nat) = (num % den : Nat) / den := by
    have whole : (num : ℚ) = den * (num / den : Nat) + (num % den : Nat) := by
      exact_mod_cast (Nat.div_add_mod num den).symm
    rw [eq_div_iff denominator.ne', sub_mul, div_mul_cancel₀ _ denominator.ne']
    linarith
  have below : (num % den : Nat) / (den : ℚ) < 1 / 2 ↔ 2 * (num % den) < den := by
    rw [div_lt_div_iff₀ denominator two_pos, one_mul, mul_comm]
    norm_cast
  have above : 1 / 2 < (num % den : Nat) / (den : ℚ) ↔ den < 2 * (num % den) := by
    rw [div_lt_div_iff₀ two_pos denominator, one_mul, mul_comm]
    norm_cast
  unfold nearestQuotient nearest
  rw [Nat.floor_div_eq_div, part]
  simp only [below, above]

theorem nearest_natCast (n : Nat) : nearest n = n := by
  unfold nearest
  rw [Nat.floor_natCast, sub_self, if_pos (by norm_num)]

/-- The binary64 number nearest to a magnitude. -/
def ofMagnitude (negative : Bool) (q : ℚ) : Binary64 :=
  if q = 0 then zero negative
  else ofMagnitudeCode negative
    ((scaleOf q + 1074).toNat * fractionRange + nearest (q / 2 ^ scaleOf q))

/-- Rounding depends on the ratio only. -/
theorem ofRatio_eq {num den : Nat} (positive : 0 < den) (negative : Bool) :
    ofRatio negative num den = ofMagnitude negative (num / den) := by
  unfold ofRatio ofMagnitude
  by_cases isZero : num = 0
  · rw [if_pos isZero, if_pos (by rw [isZero, Nat.cast_zero, zero_div])]
  · have nonzero : (num / den : ℚ) ≠ 0 :=
      div_ne_zero (by exact_mod_cast isZero) (by exact_mod_cast positive.ne')
    rw [if_neg isZero, if_neg nonzero, scaleOfRatio_eq isZero positive.ne']
    obtain ⟨bottom, ratio⟩ := scaledRatio_spec num positive (scaleOf (num / den))
    dsimp only
    rw [nearestQuotient_eq bottom, ratio]

/-! ## Exact results -/

/-- The magnitude of a finite number. -/
def magnitude (exponent fraction : Nat) : ℚ :=
  mantissa exponent fraction * 2 ^ scale exponent

theorem ratio_spec (exponent fraction : Nat) :
    0 < (ratio exponent fraction).2 ∧
      ((ratio exponent fraction).1 : ℚ) / (ratio exponent fraction).2 =
        magnitude exponent fraction := by
  unfold ratio magnitude
  dsimp only
  generalize scale exponent = s
  split
  · next nonneg =>
      obtain ⟨k, rfl⟩ := Int.eq_ofNat_of_zero_le nonneg
      refine ⟨Nat.one_pos, ?_⟩
      simp only [Int.toNat_natCast, Nat.pow_eq, Nat.cast_mul, Nat.cast_pow, zpow_natCast]
      rw [Nat.cast_one, div_one, Nat.cast_ofNat]
  · next negative =>
      obtain ⟨k, isNeg⟩ := Int.eq_ofNat_of_zero_le (by omega : 0 ≤ -s)
      obtain rfl : s = -(k : Int) := by omega
      refine ⟨Nat.pow_pos Nat.two_pos, ?_⟩
      simp only [neg_neg, Int.toNat_natCast, Nat.pow_eq, Nat.cast_pow, zpow_neg, zpow_natCast]
      rw [div_eq_mul_inv, Nat.cast_ofNat]

theorem mantissa_lt (exponent : Nat) (fraction : Fin fractionRange) :
    mantissa exponent fraction < 2 * fractionRange := by
  unfold mantissa
  split <;> omega

theorem ofMagnitudeCode_eq (negative : Bool) (exponent : Fin 2047)
    (fraction : Fin fractionRange) :
    ofMagnitudeCode negative (exponent * fractionRange + fraction) =
      .finite negative exponent fraction := by
  have bound : (fraction : Nat) < 0x10000000000000 := fraction.isLt
  have small : (exponent * 0x10000000000000 + fraction : Nat) < 2047 * 0x10000000000000 := by omega
  have high : (exponent * 0x10000000000000 + fraction : Nat) / 0x10000000000000 = exponent := by
    omega
  have low : (exponent * 0x10000000000000 + fraction : Nat) % 0x10000000000000 = fraction := by
    omega
  unfold ofMagnitudeCode
  rw [dif_pos small]
  simp only [high, low]

/-- A mantissa of 53 bits is at its own scale, as is a smaller one at the least scale. -/
theorem scaleOf_mul_zpow {m : Nat} {s : Int} (nonzero : m ≠ 0) (small : m < 2 * fractionRange)
    (least : -1074 ≤ s) (full : fractionRange ≤ m ∨ s = -1074) : scaleOf (m * 2 ^ s) = s := by
  have positive : (0 : ℚ) < m * 2 ^ s :=
    mul_pos (by exact_mod_cast Nat.pos_of_ne_zero nonzero) (zpow_pos two_pos s)
  have above : Int.log 2 (m * 2 ^ s : ℚ) < 53 + s := by
    rw [← Int.lt_zpow_iff_log_lt one_lt_two positive, Nat.cast_ofNat, zpow_add₀ two_ne_zero]
    have bound : (m : ℚ) < 2 ^ (53 : Int) := by exact_mod_cast small
    exact mul_lt_mul_of_pos_right bound (zpow_pos two_pos s)
  unfold scaleOf
  rcases full with large | isLeast
  · have below : 52 + s ≤ Int.log 2 (m * 2 ^ s : ℚ) := by
      rw [← Int.zpow_le_iff_le_log one_lt_two positive, Nat.cast_ofNat, zpow_add₀ two_ne_zero]
      have bound : (2 : ℚ) ^ (52 : Int) ≤ m := by exact_mod_cast large
      exact mul_le_mul_of_nonneg_right bound (zpow_nonneg zero_le_two s)
    omega
  · omega

/-- The magnitude of a finite number is rounded to the number. -/
theorem ofMagnitude_magnitude (negative : Bool) (exponent : Fin 2047)
    (fraction : Fin fractionRange) :
    ofMagnitude negative (magnitude exponent fraction) =
      .finite negative exponent fraction := by
  unfold ofMagnitude
  by_cases isZero : mantissa exponent fraction = 0
  · have both : exponent = 0 ∧ fraction = 0 := by
      unfold mantissa at isZero
      split at isZero
      · next least => exact ⟨Fin.ext least, Fin.ext isZero⟩
      · omega
    obtain ⟨rfl, rfl⟩ := both
    exact if_pos (by rw [magnitude, isZero, Nat.cast_zero, zero_mul])
  · have nonzero : magnitude exponent fraction ≠ 0 :=
      mul_ne_zero (by exact_mod_cast isZero) (zpow_ne_zero _ two_ne_zero)
    have isScale : scaleOf (magnitude exponent fraction) = scale exponent := by
      apply scaleOf_mul_zpow isZero (mantissa_lt exponent fraction)
      · unfold scale
        omega
      · unfold mantissa scale
        split <;> omega
    have code : (scale exponent + 1074).toNat * fractionRange + mantissa exponent fraction =
        exponent * fractionRange + fraction := by
      unfold scale mantissa fractionRange
      split <;> omega
    rw [if_neg nonzero, isScale, magnitude, mul_div_cancel_right₀ _ (zpow_ne_zero _ two_ne_zero),
      nearest_natCast, code, ofMagnitudeCode_eq]

/-! ## Whole numbers -/

theorem toInt?_of_magnitude (negative : Bool) {exponent : Fin 2047} {fraction : Fin fractionRange}
    {a : Nat} (whole : magnitude exponent fraction = a) :
    (finite negative exponent fraction).toInt? = some (applySign negative a) := by
  obtain ⟨positive, same⟩ := ratio_spec exponent fraction
  unfold toInt?
  dsimp only
  generalize (ratio exponent fraction).1 = num at same
  generalize (ratio exponent fraction).2 = den at same positive
  have denominator : (den : ℚ) ≠ 0 := by exact_mod_cast positive.ne'
  rw [whole, div_eq_iff denominator] at same
  obtain rfl : num = a * den := by exact_mod_cast same
  rw [if_pos (Nat.mul_mod_left a den), Nat.mul_div_cancel a positive]

/-- A mantissa that was rounded up to 54 bits belongs to the next scale. -/
theorem exists_finite_of_code (negative : Bool) {m : Nat} {s : Int} (least : -1074 ≤ s)
    (bounded : s ≤ 970) (small : m ≤ 2 * fractionRange) (full : fractionRange ≤ m ∨ s = -1074) :
    ∃ exponent fraction, ofMagnitudeCode negative ((s + 1074).toNat * fractionRange + m) =
      .finite negative exponent fraction ∧ magnitude exponent fraction = m * 2 ^ s := by
  by_cases subnormal : m < fractionRange
  · obtain rfl : s = -1074 := by omega
    exact ⟨0, ⟨m, subnormal⟩, ofMagnitudeCode_eq negative 0 ⟨m, subnormal⟩, rfl⟩
  · by_cases exceeds : m < 2 * fractionRange
    · have code : (s + 1074).toNat * fractionRange + m =
          (s + 1075).toNat * fractionRange + (m - fractionRange) := by
        unfold fractionRange at *
        omega
      have isScale : scale (s + 1075).toNat = s := by
        unfold scale
        omega
      rw [code]
      refine ⟨_, _, ofMagnitudeCode_eq negative ⟨(s + 1075).toNat, by omega⟩
        ⟨m - fractionRange, by omega⟩, ?_⟩
      unfold magnitude mantissa
      dsimp only
      rw [if_neg (by omega), isScale, Nat.add_sub_cancel' (by omega)]
    · obtain rfl : m = 2 * fractionRange := by omega
      have code : (s + 1074).toNat * fractionRange + 2 * fractionRange =
          (s + 1076).toNat * fractionRange + 0 := by
        unfold fractionRange
        omega
      have isScale : scale (s + 1076).toNat = 1 + s := by
        unfold scale
        omega
      rw [code]
      refine ⟨_, _, ofMagnitudeCode_eq negative ⟨(s + 1076).toNat, by omega⟩ 0, ?_⟩
      unfold magnitude mantissa
      dsimp only
      rw [if_neg (by omega), isScale, zpow_add₀ two_ne_zero, zpow_one, ← mul_assoc]
      congr 1
      rw [Fin.val_zero, Nat.add_zero, Nat.cast_mul, mul_comm]
      norm_num

theorem nearest_bounds {q : ℚ} {low high : Nat} (above : (low : ℚ) ≤ q) (below : q < high) :
    low ≤ nearest q ∧ nearest q ≤ high := by
  have floorLow : low ≤ ⌊q⌋₊ := Nat.le_floor above
  have floorHigh : ⌊q⌋₊ < high :=
    (Nat.floor_lt (le_trans (Nat.cast_nonneg low) above)).mpr below
  unfold nearest
  split
  · omega
  · split <;> omega

/-- A magnitude at its scale is rounded to a mantissa of 53 bits, or up to the next power of
two. -/
theorem nearest_scaled_bounds {q : ℚ} (positive : 0 < q) {s : Int}
    (isScale : Int.log 2 q = 52 + s) :
    fractionRange ≤ nearest (q / 2 ^ s) ∧ nearest (q / 2 ^ s) ≤ 2 * fractionRange := by
  apply nearest_bounds
  · rw [le_div_iff₀ (zpow_pos two_pos s)]
    have least := (Int.zpow_le_iff_le_log one_lt_two positive).mpr isScale.ge
    rw [Nat.cast_ofNat, zpow_add₀ two_ne_zero] at least
    exact_mod_cast least
  · rw [div_lt_iff₀ (zpow_pos two_pos s)]
    have most := (Int.lt_zpow_iff_log_lt one_lt_two positive).mpr
      (by omega : Int.log 2 q < 53 + s)
    rw [Nat.cast_ofNat, zpow_add₀ two_ne_zero] at most
    exact_mod_cast most

theorem ofInt_natCast (n : Nat) : ofInt n = ofMagnitude false n := by
  unfold ofInt
  rw [ofRatio_eq Nat.one_pos, Nat.cast_one, div_one, decide_eq_false (by omega)]
  rfl

/-- A natural number within the range is rounded to a natural number that is not beyond it. -/
theorem exists_toInt?_ofInt {n k : Nat} (large : 53 ≤ k) (bounded : k ≤ 1000)
    (within : n < 2 ^ k) :
    ∃ a : Nat, (ofInt n).isFinite = true ∧ (ofInt n).toInt? = some (a : Int) ∧ a ≤ 2 ^ k := by
  rw [ofInt_natCast]
  unfold ofMagnitude
  by_cases isZero : n = 0
  · rw [if_pos (by rw [isZero, Nat.cast_zero])]
    refine ⟨0, rfl, ?_, Nat.zero_le _⟩
    exact toInt?_of_magnitude false (by norm_num [magnitude, mantissa])
  · have positive : (0 : ℚ) < n := by exact_mod_cast Nat.pos_of_ne_zero isZero
    have low : 0 ≤ Int.log 2 (n : ℚ) := by
      rw [← Int.zpow_le_iff_le_log one_lt_two positive, zpow_zero]
      exact_mod_cast Nat.pos_of_ne_zero isZero
    have high : Int.log 2 (n : ℚ) < k := by
      rw [← Int.lt_zpow_iff_log_lt one_lt_two positive]
      exact_mod_cast within
    obtain ⟨s, isScale⟩ : ∃ s, Int.log 2 (n : ℚ) = 52 + s := ⟨Int.log 2 (n : ℚ) - 52, by omega⟩
    have scaled : scaleOf n = s := by
      unfold scaleOf
      omega
    have bounds := nearest_scaled_bounds positive isScale
    obtain ⟨exponent, fraction, isFinite, value⟩ :=
      exists_finite_of_code false (by omega : -1074 ≤ s) (by omega) bounds.2 (.inl bounds.1)
    rw [if_neg positive.ne', scaled, isFinite]
    -- A number of at least 53 bits is rounded, a shorter one is exact.
    by_cases nonneg : 0 ≤ s
    · obtain ⟨j, rfl⟩ := Int.eq_ofNat_of_zero_le nonneg
      refine ⟨nearest (n / 2 ^ (j : Int)) * 2 ^ j, rfl, ?_, ?_⟩
      · exact toInt?_of_magnitude false (by rw [value, zpow_natCast]; norm_cast)
      · calc nearest (n / 2 ^ (j : Int)) * 2 ^ j ≤ 2 * fractionRange * 2 ^ j :=
              Nat.mul_le_mul_right _ bounds.2
          _ = 2 ^ (53 + j) := (Nat.pow_add 2 53 j).symm
          _ ≤ 2 ^ k := Nat.pow_le_pow_right Nat.two_pos (by omega)
    · obtain ⟨j, isNeg⟩ := Int.eq_ofNat_of_zero_le (by omega : 0 ≤ -s)
      obtain rfl : s = -(j : Int) := by omega
      have exact : (n / 2 ^ (-(j : Int)) : ℚ) = (n * 2 ^ j : Nat) := by
        rw [zpow_neg, div_inv_eq_mul, zpow_natCast]
        norm_cast
      refine ⟨n, rfl, toInt?_of_magnitude false ?_, within.le⟩
      rw [value, exact, nearest_natCast, ← exact,
        div_mul_cancel₀ _ (zpow_ne_zero _ two_ne_zero)]

end MessageQuery.Binary64

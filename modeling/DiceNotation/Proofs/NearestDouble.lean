import DiceNotation.Proofs.ShortestDecimal
import Mathlib.Tactic.FieldSimp
import Mathlib.Tactic.Ring

/-! Division of doubles rounds to the nearest one, and to the even one from the middle. What is shifted out of a
quotient is remembered in two bits, and these are enough to compare the rest with a half at every shift. -/

namespace DiceNotation.Proofs.NearestDouble
open Float.Model Float.Model.UnpackedFloat
open Decimal ShortestDecimal

variable {extended : ExtendedMantissa} {dividend divisor mantissa : Nat} {exponent : Int}

/-- A quotient to the nearest integer, and to the even one from the middle. -/
def nearest (dividend divisor : Nat) : Nat :=
  if 2 * (dividend % divisor) < divisor then dividend / divisor
  else if 2 * (dividend % divisor) = divisor then dividend / divisor + dividend / divisor % 2
  else dividend / divisor + 1

/-- The whole part of a quotient, and how the rest compares with a half. -/
structure Cut (extended : ExtendedMantissa) (dividend divisor : Nat) : Prop where
  whole : extended.mantissa = dividend / divisor
  round : extended.roundBit = true ↔ divisor ≤ 2 * (dividend % divisor)
  sticky : extended.stickyBit = true ↔ 2 * (dividend % divisor) ≠ 0 ∧ 2 * (dividend % divisor) ≠ divisor

theorem cut_fraction (positive : 0 < divisor) :
    Cut (.ofMantissaAndAccuracy (dividend / divisor) (accuracyOfFraction (dividend % divisor) divisor))
      dividend divisor := by
  rw [accuracyOfFraction]
  split
  next exact => constructor <;> simp [ExtendedMantissa.ofMantissaAndAccuracy, exact]; omega
  next inexact =>
    cases order : compare (2 * (dividend % divisor)) divisor with
    | lt =>
      have below := Nat.compare_eq_lt.mp order
      constructor <;> simp [ExtendedMantissa.ofMantissaAndAccuracy] <;> omega
    | eq =>
      have same := Nat.compare_eq_eq.mp order
      constructor <;> simp [ExtendedMantissa.ofMantissaAndAccuracy] <;> omega
    | gt =>
      have above := Nat.compare_eq_gt.mp order
      constructor <;> simp [ExtendedMantissa.ofMantissaAndAccuracy] <;> omega

theorem cut_shiftRightOne (cut : Cut extended dividend divisor) (positive : 0 < divisor) :
    Cut extended.shiftRightOne dividend (2 * divisor) := by
  have rest := Nat.mod_lt dividend positive
  have rest' : dividend % (2 * divisor) = dividend % divisor + divisor * (dividend / divisor % 2) := by
    rw [Nat.mul_comm, Nat.mod_mul]
  have bit : dividend / divisor % 2 = 0 ∨ dividend / divisor % 2 = 1 := by omega
  refine ⟨?_, ?_, ?_⟩
  · rw [ExtendedMantissa.shiftRightOne, cut.whole, Nat.div_div_eq_div_mul, Nat.mul_comm]
  · simp only [ExtendedMantissa.shiftRightOne, cut.whole, rest', bne_iff_ne]
    rcases bit with even | odd
    · rw [even]
      omega
    · rw [odd]
      omega
  · simp only [ExtendedMantissa.shiftRightOne, rest', Bool.or_eq_true, cut.round, cut.sticky]
    rcases bit with even | odd
    · rw [even]
      omega
    · rw [odd]
      omega

theorem cut_shift (cut : Cut extended dividend divisor) (positive : 0 < divisor) (places : Nat) :
    Cut (extended >>> places) dividend (divisor * 2 ^ places) := by
  induction places with
  | zero =>
    rw [Nat.pow_zero, Nat.mul_one]
    exact cut
  | succ places ih =>
    rw [Nat.pow_succ', Nat.mul_left_comm]
    exact cut_shiftRightOne ih (Nat.mul_pos positive (Nat.pow_pos (by decide)))

theorem cut_rounded (cut : Cut extended dividend divisor) : extended.roundedMantissa = nearest dividend divisor := by
  obtain ⟨whole, round, sticky⟩ := cut
  rcases extended with ⟨found, roundBit, stickyBit⟩
  dsimp only at whole round sticky
  subst whole
  cases roundBit with
  | false =>
    have below : 2 * (dividend % divisor) < divisor := by simpa using round
    rw [nearest, if_pos below]
    cases stickyBit <;> rfl
  | true =>
    have above : divisor ≤ 2 * (dividend % divisor) := by simpa using round
    rw [nearest, if_neg (Nat.not_lt.mpr above)]
    cases stickyBit with
    | false =>
      have same : 2 * (dividend % divisor) = divisor := by
        simp only [Bool.false_eq_true, false_iff, not_and_or, not_not] at sticky
        omega
      rw [if_pos same]
      rfl
    | true =>
      rw [if_neg (sticky.mp rfl).2]
      rfl

/-- An integer is nearest to what lies within a half of it, an odd one to what lies nearer. -/
theorem nearest_eq (positive : 0 < divisor) (low : 2 * (mantissa * divisor) ≤ 2 * dividend + divisor)
    (high : 2 * dividend ≤ 2 * (mantissa * divisor) + divisor)
    (odd : mantissa % 2 = 1 →
      2 * (mantissa * divisor) < 2 * dividend + divisor ∧ 2 * dividend < 2 * (mantissa * divisor) + divisor) :
    nearest dividend divisor = mantissa := by
  have split := Nat.div_add_mod dividend divisor
  rcases Nat.lt_or_ge dividend (mantissa * divisor) with below | above
  · obtain ⟨less, rfl⟩ : ∃ less, mantissa = less + 1 := ⟨mantissa - 1, by grind⟩
    have product : (less + 1) * divisor = less * divisor + divisor := Nat.succ_mul less divisor
    have whole : dividend / divisor = less := Nat.div_eq_of_lt_le (by omega) below
    rw [product] at low high odd below
    rw [whole, Nat.mul_comm] at split
    rw [nearest, whole]
    split_ifs <;> omega
  · have whole : dividend / divisor = mantissa := Nat.div_eq_of_lt_le above (by rw [Nat.succ_mul mantissa]; omega)
    rw [whole, Nat.mul_comm] at split
    rw [nearest, whole]
    split_ifs <;> omega

theorem target_eq (total : Int) : Format.binary64.targetExponent total = max (total - 53) (-1074) := by
  have bits : Format.binary64.mantissaBits = 53 := rfl
  simp [Format.targetExponent, Format.minExponent, bits]

variable {places carry : Nat}

/-- A quotient is cut behind its first fifty-three bits. -/
theorem cut_shiftToTarget (positive : 0 < divisor) (low : 2 ^ 52 * (divisor * 2 ^ places) ≤ dividend)
    (high : dividend < 2 ^ 53 * (divisor * 2 ^ places)) (least : -1074 ≤ exponent + places) :
    ∃ extended,
      shiftToTargetExponent .binary64 (dividend / divisor) exponent (accuracyOfFraction (dividend % divisor) divisor) =
        (extended, exponent + places) ∧ Cut extended dividend (divisor * 2 ^ places) := by
  have bits : (dividend / divisor).log2 = 52 + places := by
    have least : 2 ^ (52 + places) ≤ dividend / divisor := by
      rw [Nat.le_div_iff_mul_le positive, Nat.pow_add, Nat.mul_assoc, Nat.mul_comm (2 ^ places)]
      exact low
    have most : dividend / divisor < 2 ^ (52 + places + 1) := by
      rw [Nat.div_lt_iff_lt_mul positive, Nat.add_right_comm, Nat.pow_add, Nat.mul_assoc, Nat.mul_comm (2 ^ places)]
      exact high
    exact (Nat.log2_eq_iff (by have := Nat.pow_pos (n := 52 + places) (show 0 < 2 by decide); omega)).mpr ⟨least, most⟩
  have target : Format.binary64.targetExponent (totalExponent (dividend / divisor) exponent) = exponent + places := by
    rw [target_eq, totalExponent, bits]
    omega
  have amount : (exponent + places - exponent).toNat = places := by omega
  rw [shiftToTargetExponent, target, shiftToExponent, amount]
  exact ⟨_, rfl, cut_shift (cut_fraction positive) positive places⟩

theorem roundWithAccuracy_eq {sign : UnpackedFloat.Sign} (positive : 0 < divisor)
    (low : 2 ^ 52 * (divisor * 2 ^ places) ≤ dividend) (high : dividend < 2 ^ 53 * (divisor * 2 ^ places))
    (least : -1074 ≤ exponent + places) (rounded : nearest dividend (divisor * 2 ^ places) = mantissa * 2 ^ carry)
    (normal : 2 ^ 52 ≤ mantissa) (small : mantissa < 2 ^ 53) :
    roundWithAccuracy .binary64 sign (dividend / divisor) exponent (accuracyOfFraction (dividend % divisor) divisor) =
      .finite sign mantissa (exponent + places + carry) (Nat.lt_of_lt_of_le (by decide) normal) := by
  obtain ⟨first, shifted, cut⟩ := cut_shiftToTarget positive low high least
  have exact : mantissa * 2 ^ carry / 1 = mantissa * 2 ^ carry ∧
      accuracyOfFraction (mantissa * 2 ^ carry % 1) 1 = .exact := ⟨Nat.div_one _, by rw [Nat.mod_one]; rfl⟩
  have again : ∃ extended, shiftToTargetExponent .binary64 (mantissa * 2 ^ carry / 1) (exponent + places)
      (accuracyOfFraction (mantissa * 2 ^ carry % 1) 1) = (extended, exponent + places + carry) ∧
        Cut extended (mantissa * 2 ^ carry) (1 * 2 ^ carry) := by
    apply cut_shiftToTarget Nat.one_pos
    · exact Nat.one_mul _ ▸ Nat.mul_le_mul_right _ normal
    · exact Nat.one_mul _ ▸ Nat.mul_lt_mul_of_pos_right small (Nat.pow_pos (by decide))
    · omega
  obtain ⟨second, shifted', cut'⟩ := again
  rw [exact.1, exact.2] at shifted'
  have whole : second.mantissa = mantissa := by
    rw [cut'.whole, Nat.one_mul, Nat.mul_div_cancel _ (Nat.pow_pos (by decide))]
  rw [roundWithAccuracy, shifted]
  dsimp only
  rw [cut_rounded cut, rounded, shifted']
  dsimp only
  rw [dif_neg (by omega)]
  congr

/-- What has full length already is not changed by rounding. -/
theorem roundWithAccuracy_exact {sign : UnpackedFloat.Sign} (normal : 2 ^ 52 ≤ mantissa) (small : mantissa < 2 ^ 53)
    (least : -1074 ≤ exponent) :
    roundWithAccuracy .binary64 sign mantissa exponent .exact =
      .finite sign mantissa exponent (Nat.lt_of_lt_of_le (by decide) normal) := by
  have rounded : nearest mantissa (1 * 2 ^ 0) = mantissa * 2 ^ 0 := by simp [nearest, Nat.mod_one]
  have whole : roundWithAccuracy .binary64 sign (mantissa / 1) exponent (accuracyOfFraction (mantissa % 1) 1) = _ :=
    roundWithAccuracy_eq Nat.one_pos (by simpa using normal) (by simpa using small) (by simpa using least)
      rounded normal small
  rw [Nat.div_one, Nat.mod_one, Int.natCast_zero, Int.add_zero, Int.add_zero] at whole
  exact whole

section Quotients
variable {numerator denominator : Nat} {upper lower : Int}

def quotient (numerator : Nat) (upper : Int) (denominator : Nat) (lower : Int) : ℚ :=
  numerator * 2 ^ upper / (denominator * 2 ^ lower)

/-- The difference of the bit lengths is no more than that of a quotient. -/
theorem total_le {bound : Int} (some : 0 < numerator) (positive : 0 < denominator)
    (below : quotient numerator upper denominator lower < 2 ^ bound) :
    totalExponent numerator upper - totalExponent denominator lower ≤ bound := by
  have least : (2 : ℚ) ^ numerator.log2 ≤ numerator := by exact_mod_cast Nat.log2_self_le some.ne'
  have most : (denominator : ℚ) < 2 ^ (denominator.log2 + 1) := by exact_mod_cast Nat.lt_log2_self
  have positive' : (0 : ℚ) < denominator := by exact_mod_cast positive
  have reached : (2 : ℚ) ^ (totalExponent numerator upper - totalExponent denominator lower - 1) < 2 ^ bound := by
    refine lt_of_le_of_lt ?_ below
    have exponents : totalExponent numerator upper - totalExponent denominator lower - 1 =
        (numerator.log2 : Int) + upper - ((denominator.log2 + 1 : Nat) + lower) := by
      simp only [totalExponent]
      omega
    rw [exponents, zpow_sub₀ (by norm_num), zpow_add₀ (by norm_num), zpow_add₀ (by norm_num), zpow_natCast, zpow_natCast,
      quotient]
    gcongr
  have order := (zpow_lt_zpow_iff_right₀ (by norm_num : (1 : ℚ) < 2)).mp reached
  omega

/-- Multiples of a power of two compare with a scaled quotient as integers do. -/
theorem compare_scaled {unit scale : Int} {halvings : Nat} (same : unit + halvings = scale + places)
    (positive : 0 < divisor) (count : Nat) :
    ((count : ℚ) * 2 ^ unit ≤ dividend / divisor * 2 ^ scale ↔
        count * (divisor * 2 ^ places) ≤ 2 ^ halvings * dividend) ∧
      ((dividend : ℚ) / divisor * 2 ^ scale ≤ count * 2 ^ unit ↔
        2 ^ halvings * dividend ≤ count * (divisor * 2 ^ places)) := by
  have positive' : (0 : ℚ) < divisor := by exact_mod_cast positive
  have factor : (0 : ℚ) < 2 ^ scale / (2 ^ halvings * divisor) := by positivity
  have power : (2 : ℚ) ^ unit = 2 ^ scale * 2 ^ places / 2 ^ halvings := by
    rw [eq_div_iff (by positivity), ← zpow_natCast, ← zpow_natCast, ← zpow_add₀ (by norm_num), ← zpow_add₀ (by norm_num),
      same]
  have multiple : (count : ℚ) * 2 ^ unit =
      (count * (divisor * 2 ^ places) : Nat) * (2 ^ scale / (2 ^ halvings * divisor)) := by
    rw [power]
    push_cast
    field_simp
  have whole : (dividend : ℚ) / divisor * 2 ^ scale =
      (2 ^ halvings * dividend : Nat) * (2 ^ scale / (2 ^ halvings * divisor)) := by
    push_cast
    field_simp
  rw [multiple, whole, mul_le_mul_iff_left₀ factor, mul_le_mul_iff_left₀ factor, Nat.cast_le, Nat.cast_le]
  exact ⟨Iff.rfl, Iff.rfl⟩

/-- A quotient of doubles is cut where it has enough bits, and rounded. -/
theorem div_cut (some : 0 < numerator) (positive : 0 < denominator) : ∃ dividend scale,
    UnpackedFloat.div .binary64 (.finite .positive numerator upper some) (.finite .positive denominator lower positive) =
        roundWithAccuracy .binary64 .positive (dividend / denominator) scale
          (accuracyOfFraction (dividend % denominator) denominator) ∧
      quotient numerator upper denominator lower = dividend / denominator * 2 ^ scale ∧
      scale ≤ max (totalExponent numerator upper - totalExponent denominator lower - 53) (-1074) := by
  rw [← target_eq]
  generalize target :
    Format.binary64.targetExponent (totalExponent numerator upper - totalExponent denominator lower) = places
  refine ⟨numerator <<< (upper - lower - min (upper - lower) places).toNat, min (upper - lower) places,
    ?_, ?_, Int.min_le_right _ _⟩
  · rw [← target]
    rfl
  · have shift : ((upper - lower - min (upper - lower) places).toNat : Int) =
        upper - lower - min (upper - lower) places := by omega
    have nonzero : (denominator : ℚ) ≠ 0 := by exact_mod_cast positive.ne'
    rw [Nat.shiftLeft_eq, quotient]
    push_cast
    rw [← zpow_natCast, shift, zpow_sub₀ (by norm_num), zpow_sub₀ (by norm_num)]
    field_simp

section Basins
variable {value : ℚ}

/-- How the basin of a double lies about it, counted in quarters of its last place. -/
private theorem basin_quarters (attracts : Attracts (Basin.ofFinite mantissa exponent) value) :
    ((4 * mantissa - 2 : Nat) : ℚ) * 2 ^ (exponent - 2) ≤ value ∧ value ≤ (4 * mantissa + 2 : Nat) * 2 ^ (exponent - 2) ∧
      (mantissa % 2 = 1 → ¬ value ≤ (4 * mantissa - 2 : Nat) * 2 ^ (exponent - 2) ∧
        ¬ (4 * mantissa + 2 : Nat) * 2 ^ (exponent - 2) ≤ value) := by
  obtain ⟨low, high⟩ := attracts.within
  have power : (0 : ℚ) < 2 ^ (exponent - 2) := by positivity
  have least : ((4 * mantissa - 2 : Nat) : ℚ) * 2 ^ (exponent - 2) ≤
      (Basin.ofFinite mantissa exponent).low * 2 ^ (Basin.ofFinite mantissa exponent).unit := by
    simp only [Basin.ofFinite]
    gcongr
    split <;> omega
  refine ⟨least.trans low, high, fun odd => ?_⟩
  have isOpen : (Basin.ofFinite mantissa exponent).closed = false := by simp [Basin.ofFinite, odd]
  rw [Attracts, isOpen] at attracts
  simp only [Bool.false_eq_true, if_false] at attracts
  exact ⟨not_le.mpr (lt_of_le_of_lt least attracts.1), not_le.mpr attracts.2⟩

private theorem basin_short (normal : 2 ^ 52 ≤ mantissa) (least : -1074 < exponent)
    (attracts : Attracts (Basin.ofFinite mantissa exponent) value)
    (below : ¬ (2 ^ 54 : Nat) * 2 ^ (exponent - 2) ≤ value) :
    mantissa = 2 ^ 52 ∧ ((2 ^ 54 - 1 : Nat) : ℚ) * 2 ^ (exponent - 2) ≤ value := by
  have power : (0 : ℚ) < 2 ^ (exponent - 2) := by positivity
  have exact : mantissa = 2 ^ 52 := by
    by_contra other
    refine below (le_trans ?_ (basin_quarters attracts).1)
    gcongr
    omega
  have low := attracts.within.1
  have first : (Basin.ofFinite mantissa exponent).low = 2 ^ 54 - 1 := by
    have regular : ¬ exponent = -1074 := by omega
    simp [Basin.ofFinite, exact, Binary.leadingBit, Binary.leastExponent, regular]
  rw [first] at low
  exact ⟨exact, low⟩

private theorem nearest_full {dividend cell : Nat} (positive : 0 < cell)
    (low : (4 * mantissa - 2) * cell ≤ 2 ^ 2 * dividend) (high : 2 ^ 2 * dividend ≤ (4 * mantissa + 2) * cell)
    (odd : mantissa % 2 = 1 →
      ¬ 2 ^ 2 * dividend ≤ (4 * mantissa - 2) * cell ∧ ¬ (4 * mantissa + 2) * cell ≤ 2 ^ 2 * dividend) :
    nearest dividend cell = mantissa := by
  rw [Nat.sub_mul, Nat.mul_assoc] at low odd
  rw [Nat.add_mul, Nat.mul_assoc] at high odd
  apply nearest_eq positive
  · omega
  · omega
  · intro isOdd
    obtain ⟨above, below⟩ := odd isOdd
    omega

/-- Below a power of two the first bits of a quotient reach one place further, and are rounded up. -/
private theorem nearest_short {dividend cell : Nat} (positive : 0 < cell) (low : (2 ^ 54 - 1) * cell ≤ 2 ^ 1 * dividend)
    (high : 2 ^ 1 * dividend < 2 ^ 54 * cell) : nearest dividend cell = 2 ^ 52 * 2 ^ 1 := by
  apply nearest_eq positive <;> omega

/-- Two doubles are divided to the one in whose basin their quotient lies. -/
theorem div_eq (some : 0 < numerator) (positive : 0 < denominator) (normal : 2 ^ 52 ≤ mantissa)
    (small : mantissa < 2 ^ 53) (least : -1074 < exponent)
    (attracts : Attracts (Basin.ofFinite mantissa exponent) (quotient numerator upper denominator lower)) :
    UnpackedFloat.div .binary64 (.finite .positive numerator upper some) (.finite .positive denominator lower positive) =
      .finite .positive mantissa exponent (Nat.lt_of_lt_of_le (by decide) normal) := by
  have power : (0 : ℚ) < 2 ^ (exponent - 2) := by positivity
  obtain ⟨dividend, scale, divided, exact, cap⟩ :
    ∃ dividend scale, _ ∧ quotient numerator upper denominator lower = _ ∧ _ := div_cut some positive
  obtain ⟨low, high, odd⟩ := basin_quarters attracts
  rw [divided]
  -- Only just below a power of two does the basin hold quotients whose first bit stands a place lower.
  by_cases full : ((2 ^ 54 : Nat) : ℚ) * 2 ^ (exponent - 2) ≤ quotient numerator upper denominator lower
  · have below : quotient numerator upper denominator lower < 2 ^ (exponent + 53) := by
      refine lt_of_le_of_lt high ?_
      rw [show exponent + 53 = 55 + (exponent - 2) by omega, zpow_add₀ (by norm_num)]
      gcongr
      norm_cast
      omega
    have total := total_le some positive below
    obtain ⟨places, same⟩ : ∃ places : Nat, exponent - 2 + (2 : Nat) = scale + places :=
      ⟨(exponent - scale).toNat, by omega⟩
    have cell : 0 < denominator * 2 ^ places := Nat.mul_pos positive (Nat.pow_pos (by decide))
    rw [exact, (compare_scaled same positive _).1] at full low
    rw [exact, (compare_scaled same positive _).2] at high
    rw [exact, (compare_scaled same positive _).2, (compare_scaled same positive _).1] at odd
    have most : (4 * mantissa + 2) * (denominator * 2 ^ places) ≤ (2 ^ 55 - 2) * (denominator * 2 ^ places) :=
      Nat.mul_le_mul_right _ (by omega)
    have rounded : nearest dividend (denominator * 2 ^ places) = mantissa * 2 ^ 0 := by
      rw [nearest_full cell low high odd, Nat.pow_zero, Nat.mul_one]
    rw [roundWithAccuracy_eq positive (by omega) (by omega) (by omega) rounded normal small]
    congr 1
    omega
  · obtain ⟨rfl, short⟩ := basin_short normal least attracts full
    have below : quotient numerator upper denominator lower < 2 ^ (exponent + 52) := by
      rw [show exponent + 52 = 54 + (exponent - 2) by omega, zpow_add₀ (by norm_num)]
      exact_mod_cast not_le.mp full
    have total := total_le some positive below
    obtain ⟨places, same⟩ : ∃ places : Nat, exponent - 2 + (1 : Nat) = scale + places :=
      ⟨(exponent - 1 - scale).toNat, by omega⟩
    have cell : 0 < denominator * 2 ^ places := Nat.mul_pos positive (Nat.pow_pos (by decide))
    rw [exact, (compare_scaled same positive _).1] at full short
    have rounded := nearest_short cell short (by omega)
    rw [roundWithAccuracy_eq positive (by omega) (by omega) (by omega) rounded normal small]
    congr 1
    omega

end Basins

end Quotients

end DiceNotation.Proofs.NearestDouble

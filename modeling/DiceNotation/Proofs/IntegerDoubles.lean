import DiceNotation.Proofs.DecimalReading

/-! Integers as doubles. Small ones are kept, and of the others each is rounded to an integer with fifty-three bits that
matter. Rounding keeps the order of integers, though it can bring two of them together, and doubles are compared by it. -/

namespace DiceNotation.Proofs.IntegerDoubles
open Float.Model Float.Model.UnpackedFloat
open NearestDouble DoubleBits DecimalReading

variable {dividend dividend' divisor n n' : Nat}

section Rounding

theorem nearest_bounds (dividend divisor : Nat) :
    dividend / divisor ≤ nearest dividend divisor ∧ nearest dividend divisor ≤ dividend / divisor + 1 := by
  rw [nearest]
  split_ifs <;> omega

theorem nearest_mono (le : dividend ≤ dividend') : nearest dividend divisor ≤ nearest dividend' divisor := by
  have quotients : dividend / divisor ≤ dividend' / divisor := Nat.div_le_div_right le
  rcases Nat.lt_or_eq_of_le quotients with less | same
  · have below := (nearest_bounds dividend divisor).2
    have above := (nearest_bounds dividend' divisor).1
    omega
  · have rest := Nat.div_add_mod dividend divisor
    have rest' := Nat.div_add_mod dividend' divisor
    rw [same] at rest
    rw [nearest, nearest, same]
    split_ifs <;> omega

theorem nearest_one (n : Nat) : nearest n 1 = n := by
  simp [nearest, Nat.mod_one]

theorem nearest_scaled (dividend divisor : Nat) {factor : Nat} (positive : 0 < factor) :
    nearest (dividend * factor) (divisor * factor) = nearest dividend divisor := by
  have rest : dividend * factor % (divisor * factor) = dividend % divisor * factor := Nat.mul_mod_mul_right ..
  have less : 2 * (dividend % divisor * factor) < divisor * factor ↔ 2 * (dividend % divisor) < divisor := by
    rw [← Nat.mul_assoc, Nat.mul_lt_mul_right positive]
  have same : 2 * (dividend % divisor * factor) = divisor * factor ↔ 2 * (dividend % divisor) = divisor := by
    rw [← Nat.mul_assoc, Nat.mul_left_inj positive.ne']
  rw [nearest, nearest, rest, Nat.mul_div_mul_right _ _ positive]
  simp only [less, same]

/-- The nearest integer of which only fifty-three bits matter, and the even one of two. -/
def rounded (n : Nat) : Nat := nearest n (2 ^ (n.log2 - 52)) * 2 ^ (n.log2 - 52)

theorem rounded_short (short : n.log2 ≤ 52) : rounded n = n := by
  rw [rounded, Nat.sub_eq_zero_of_le short, Nat.pow_zero, nearest_one, Nat.mul_one]

theorem rounded_small (small : n ≤ 2 ^ 53) : rounded n = n := by
  rcases Nat.lt_or_eq_of_le small with less | rfl
  · rcases Nat.eq_zero_or_pos n with rfl | some
    · rfl
    · exact rounded_short (Nat.le_of_lt_succ ((Nat.log2_lt some.ne').mpr less))
  · decide +kernel

private theorem quotient_bounds (long : 52 ≤ n.log2) :
    2 ^ 52 ≤ n / 2 ^ (n.log2 - 52) ∧ n / 2 ^ (n.log2 - 52) < 2 ^ 53 := by
  have some : n ≠ 0 := by
    rintro rfl
    simp at long
  have power : 0 < 2 ^ (n.log2 - 52) := Nat.two_pow_pos _
  have least := Nat.log2_self_le some
  have most := Nat.lt_log2_self (n := n)
  constructor
  · rw [Nat.le_div_iff_mul_le power, ← Nat.pow_add]
    rwa [show 52 + (n.log2 - 52) = n.log2 by omega]
  · rw [Nat.div_lt_iff_lt_mul power, ← Nat.pow_add]
    rwa [show 53 + (n.log2 - 52) = n.log2 + 1 by omega]

theorem rounded_bounds (some : n ≠ 0) : 2 ^ n.log2 ≤ rounded n ∧ rounded n ≤ 2 ^ (n.log2 + 1) := by
  rcases Nat.le_total n.log2 52 with short | long
  · rw [rounded_short short]
    exact ⟨Nat.log2_self_le some, Nat.lt_log2_self.le⟩
  · obtain ⟨least, most⟩ := quotient_bounds long
    obtain ⟨below, above⟩ := nearest_bounds n (2 ^ (n.log2 - 52))
    have first : 2 ^ n.log2 = 2 ^ 52 * 2 ^ (n.log2 - 52) := by rw [← Nat.pow_add]; congr 1; omega
    have last : 2 ^ (n.log2 + 1) = 2 ^ 53 * 2 ^ (n.log2 - 52) := by rw [← Nat.pow_add]; congr 1; omega
    rw [first, last, rounded]
    exact ⟨Nat.mul_le_mul_right _ (by omega), Nat.mul_le_mul_right _ (by omega)⟩

theorem rounded_mono (le : n ≤ n') : rounded n ≤ rounded n' := by
  rcases Nat.eq_zero_or_pos n with rfl | some
  · exact Nat.zero_le _
  have some' : n' ≠ 0 := by omega
  have logs : n.log2 ≤ n'.log2 := (Nat.le_log2 some').mpr ((Nat.log2_self_le some.ne').trans le)
  rcases Nat.lt_or_eq_of_le logs with less | same
  · exact ((rounded_bounds some.ne').2.trans (Nat.pow_le_pow_right (by decide) less)).trans (rounded_bounds some').1
  · rw [rounded, rounded, same]
    exact Nat.mul_le_mul_right _ (nearest_mono le)

end Rounding

section Conversion
variable {places : Nat}

theorem log2_shifted (some : n ≠ 0) (places : Nat) : (n * 2 ^ places).log2 = n.log2 + places := by
  have power := Nat.two_pow_pos places
  refine (Nat.log2_eq_iff (Nat.mul_pos (Nat.pos_of_ne_zero some) power).ne').mpr ⟨?_, ?_⟩
  · rw [Nat.pow_add]
    exact Nat.mul_le_mul_right _ (Nat.log2_self_le some)
  · rw [Nat.add_right_comm, Nat.pow_add]
    exact Nat.mul_lt_mul_of_pos_right Nat.lt_log2_self power

/-- Shifted first and rounded then, an integer is what it is rounded to, shifted. -/
theorem rounded_shifted (some : n ≠ 0) (long : 52 ≤ n.log2 + places) : rounded (n * 2 ^ places) = rounded n * 2 ^ places := by
  rw [rounded, log2_shifted some]
  rcases Nat.le_total n.log2 52 with short | longer
  · obtain ⟨cut, same⟩ : ∃ cut, places = cut + (n.log2 + places - 52) := ⟨52 - n.log2, by omega⟩
    generalize n.log2 + places - 52 = kept at same
    subst same
    rw [rounded_short short, Nat.pow_add, ← Nat.mul_assoc]
    have divided := nearest_scaled (n * 2 ^ cut) 1 (Nat.two_pow_pos kept)
    rw [Nat.one_mul, nearest_one] at divided
    rw [divided]
  · rw [rounded, Nat.sub_add_comm longer, Nat.pow_add, nearest_scaled _ _ (Nat.two_pow_pos _), Nat.mul_assoc]

private theorem exists_mantissa (long : 52 ≤ n.log2) : ∃ mantissa carry,
    2 ^ 52 ≤ mantissa ∧ mantissa < 2 ^ 53 ∧ carry ≤ 1 ∧ nearest n (2 ^ (n.log2 - 52)) = mantissa * 2 ^ carry := by
  obtain ⟨least, most⟩ := quotient_bounds long
  obtain ⟨below, above⟩ := nearest_bounds n (2 ^ (n.log2 - 52))
  rcases Nat.lt_or_ge (nearest n (2 ^ (n.log2 - 52))) (2 ^ 53) with kept | carried
  · exact ⟨_, 0, least.trans below, kept, by decide, by rw [Nat.pow_zero, Nat.mul_one]⟩
  · exact ⟨2 ^ 52, 1, Nat.le_refl _, by decide, Nat.le_refl _, by omega⟩

theorem round_long (sign : UnpackedFloat.Sign) (exponent : Int) (long : 52 ≤ n.log2) (least : -1074 ≤ exponent)
    (most : exponent + n.log2 ≤ 1000) : ∃ mantissa exponent', ∃ full : Full mantissa exponent',
      roundWithAccuracy .binary64 sign n exponent .exact = .finite sign mantissa exponent' full.pos ∧
        (mantissa : ℚ) * 2 ^ exponent' = rounded n * 2 ^ exponent := by
  obtain ⟨mantissa, carry, normal, small, few, same⟩ := exists_mantissa long
  obtain ⟨least', most'⟩ := quotient_bounds long
  have power := Nat.two_pow_pos (n.log2 - 52)
  rw [Nat.le_div_iff_mul_le power] at least'
  rw [Nat.div_lt_iff_lt_mul power] at most'
  have placed : roundWithAccuracy .binary64 sign (n / 1) exponent (accuracyOfFraction (n % 1) 1) = _ :=
    roundWithAccuracy_eq Nat.one_pos (by rwa [Nat.one_mul]) (by rwa [Nat.one_mul]) (by omega) (by rwa [Nat.one_mul])
      normal small
  refine ⟨mantissa, exponent + (n.log2 - 52 : Nat) + carry, ⟨normal, small, by omega, by omega⟩, ?_, ?_⟩
  · rw [Nat.div_one, Nat.mod_one] at placed
    exact placed
  · rw [rounded, same, zpow_add₀ (by norm_num), zpow_add₀ (by norm_num), zpow_natCast, zpow_natCast]
    push_cast
    ring

/-- An integer that has been shifted is rounded to the same double as before, as its exponent takes the shift back. -/
theorem round_shifted (sign : UnpackedFloat.Sign) (places : Nat) (some : n ≠ 0) (word : n < 2 ^ 64)
    (long : 52 ≤ n.log2 + places) (few : places ≤ 200) : ∃ mantissa exponent, ∃ full : Full mantissa exponent,
      roundWithAccuracy .binary64 sign (n * 2 ^ places) (-places) .exact = .finite sign mantissa exponent full.pos ∧
        (mantissa : ℚ) * 2 ^ exponent = rounded n := by
  have bits : n.log2 < 64 := (Nat.log2_lt some).mpr word
  have shifted := log2_shifted some places
  obtain ⟨mantissa, exponent, full, found, same⟩ :=
    round_long (n := n * 2 ^ places) sign (-places) (by omega) (by omega) (by omega)
  refine ⟨mantissa, exponent, full, found, same.trans ?_⟩
  rw [rounded_shifted some long, zpow_neg, zpow_natCast]
  push_cast
  exact mul_inv_cancel_right₀ (by positivity) _

private theorem unpack_one : Float.exactlyRepresentablePowersOfTen[0].toModel.unpack =
    .finite .positive (2 ^ 52) (-52) (by decide) := rfl

private theorem mul_positive {factor factor' : Nat} {exponent exponent' : Int} (positive : 0 < factor) (positive' : 0 < factor') :
    UnpackedFloat.mul .binary64 (.finite .positive factor exponent positive) (.finite .positive factor' exponent' positive') =
      roundWithAccuracy .binary64 .positive (factor * factor') (exponent + exponent') .exact := rfl

private theorem unpack_product {product : UnpackedFloat} {mantissa : Nat} {exponent : Int} (full : Full mantissa exponent)
    (rounded : product = .finite .positive mantissa exponent full.pos) :
    (Float.Model.pack product).unpack = .finite .positive mantissa exponent full.pos := by
  subst rounded
  exact unpack_pack full

theorem ofNat_finite (some : n ≠ 0) (word : n < 2 ^ 64) : ∃ mantissa exponent, ∃ full : Full mantissa exponent,
    (Float.ofNat n).toModel.unpack = .finite .positive mantissa exponent full.pos ∧
      (mantissa : ℚ) * 2 ^ exponent = rounded n := by
  have unfolded : Float.ofNat n = Float.ofScientific n false 0 := rfl
  rw [unfolded, Float.ofScientific]
  by_cases short : n < 2 ^ 53 ∧ 0 ≤ 22
  · rw [dif_pos short]
    have small := short.1
    have bits : n.log2 < 53 := (Nat.log2_lt some).mpr small
    obtain ⟨mantissa, exponent, full, found, same⟩ :=
      round_shifted .positive (52 - n.log2 + 52) some word (by omega) (by omega)
    refine ⟨mantissa, exponent, full, ?_, same⟩
    have product : UnpackedFloat.mul .binary64 n.toUInt64.toFloat.toModel.unpack
        Float.exactlyRepresentablePowersOfTen[0].toModel.unpack = .finite .positive mantissa exponent full.pos := by
      have exponents : -((52 - n.log2 : Nat) : Int) + -52 = -((52 - n.log2 + 52 : Nat) : Int) := by omega
      rw [unpack_toFloat (Nat.pos_of_ne_zero some) small, unpack_one, mul_positive, Nat.mul_assoc, ← Nat.pow_add,
        exponents]
      exact found
    exact unpack_product full product
  · rw [dif_neg short]
    have large : 2 ^ 53 ≤ n := by omega
    obtain ⟨mantissa, exponent, full, found, same⟩ := round_shifted .positive 53 some word (by omega) (by omega)
    refine ⟨mantissa, exponent, full, ?_, same⟩
    have product : UnpackedFloat.ofScientific .binary64 n 0 = .finite .positive mantissa exponent full.pos := by
      have near : ¬ ((0 : Int) < -((2 ^ 11 : Int) + n.log2)) := by omega
      rw [UnpackedFloat.ofScientific, dif_neg some, if_neg (by decide), if_neg near, if_pos (Int.le_refl 0), mul_positive,
        Nat.shiftLeft_eq, Int.toNat_zero, Nat.pow_zero, Nat.mul_one, Int.add_zero]
      exact found
    exact unpack_product full product

end Conversion

section Comparison

inductive Amounts : UnpackedFloat → ℚ → Prop
  | zero (sign : UnpackedFloat.Sign) : Amounts (.zero sign) 0
  | positive {mantissa : Nat} {exponent : Int} (full : Full mantissa exponent) :
      Amounts (.finite .positive mantissa exponent full.pos) (mantissa * 2 ^ exponent)
  | negative {mantissa : Nat} {exponent : Int} (full : Full mantissa exponent) :
      Amounts (.finite .negative mantissa exponent full.pos) (-(mantissa * 2 ^ exponent))

variable {mantissa mantissa' : Nat} {exponent exponent' : Int}

private theorem amount_pos (full : Full mantissa exponent) : (0 : ℚ) < mantissa * 2 ^ exponent := by
  have some : (0 : ℚ) < mantissa := by exact_mod_cast full.pos
  positivity

private theorem amount_lt (full : Full mantissa exponent) (full' : Full mantissa' exponent') (less : exponent < exponent') :
    (mantissa : ℚ) * 2 ^ exponent < mantissa' * 2 ^ exponent' := by
  have small : (mantissa : ℚ) < 2 ^ 53 := by exact_mod_cast full.small
  have normal : (2 : ℚ) ^ 52 ≤ mantissa' := by exact_mod_cast full'.normal
  have step : (2 : ℚ) ^ (exponent + 1) ≤ 2 ^ exponent' := zpow_le_zpow_right₀ (by norm_num) (by omega)
  calc (mantissa : ℚ) * 2 ^ exponent < 2 ^ 53 * 2 ^ exponent := by gcongr
    _ = 2 ^ 52 * 2 ^ (exponent + 1) := by rw [zpow_add₀ (by norm_num), zpow_one]; ring
    _ ≤ mantissa' * 2 ^ exponent' := by gcongr

private theorem compare_amounts (full : Full mantissa exponent) (full' : Full mantissa' exponent') :
    (compare exponent exponent').then (compare mantissa mantissa') =
      compare ((mantissa : ℚ) * 2 ^ exponent) (mantissa' * 2 ^ exponent') := by
  rcases lt_trichotomy exponent exponent' with less | rfl | more
  · rw [compare_lt_iff_lt.mpr less, compare_lt_iff_lt.mpr (amount_lt full full' less)]
    rfl
  · have scaled : StrictMono fun mantissa : Nat => (mantissa : ℚ) * 2 ^ exponent :=
      Nat.strictMono_cast.mul_const (by positivity)
    rw [compare_eq_iff_eq.mpr rfl, ← cmp_eq_compare, ← cmp_eq_compare]
    exact (scaled.cmp_map_eq mantissa mantissa').symm
  · rw [compare_gt_iff_gt.mpr more, compare_gt_iff_gt.mpr (amount_lt full' full more)]
    rfl

private theorem compare_opposite (value value' : ℚ) : compare (-value) (-value') = (compare value value').swap := by
  have opposite : StrictAnti fun value : ℚ => -value := fun _ _ => neg_lt_neg
  rw [← cmp_eq_compare, ← cmp_eq_compare, cmp_swap]
  exact opposite.cmp_map_eq value value'

/-- Doubles are compared as what they amount to. -/
theorem Amounts.compare_eq {first second : UnpackedFloat} {value value' : ℚ} (amounts : Amounts first value)
    (amounts' : Amounts second value') : first.compare second = some (compare value value') := by
  cases amounts with
  | zero sign =>
    cases amounts' with
    | zero sign' => rw [compare_eq_iff_eq.mpr rfl]; rfl
    | positive full' => rw [compare_lt_iff_lt.mpr (amount_pos full')]; rfl
    | negative full' => rw [compare_gt_iff_gt.mpr (neg_lt_zero.mpr (amount_pos full'))]; rfl
  | positive full =>
    cases amounts' with
    | zero sign' => rw [compare_gt_iff_gt.mpr (amount_pos full)]; rfl
    | positive full' => rw [← compare_amounts full full']; rfl
    | negative full' =>
      rw [compare_gt_iff_gt.mpr ((neg_lt_zero.mpr (amount_pos full')).trans (amount_pos full))]
      rfl
  | negative full =>
    cases amounts' with
    | zero sign' => rw [compare_lt_iff_lt.mpr (neg_lt_zero.mpr (amount_pos full))]; rfl
    | positive full' =>
      rw [compare_lt_iff_lt.mpr ((neg_lt_zero.mpr (amount_pos full)).trans (amount_pos full'))]
      rfl
    | negative full' => rw [compare_opposite, ← compare_amounts full full']; rfl

private theorem lt_iff_compare (x y : Float) : x < y ↔ x.toModel.unpack.compare y.toModel.unpack = some .lt := by
  change decide (x.toModel < y.toModel) = true ↔ _
  rw [decide_eq_true_iff]
  change (x.toModel.unpack.compare y.toModel.unpack == some .lt) = true ↔ _
  exact beq_iff_eq

private theorem beq_iff_compare (x y : Float) : (x == y) = true ↔ x.toModel.unpack.compare y.toModel.unpack = some .eq := by
  change (x.toModel.unpack.compare y.toModel.unpack == some .eq) = true ↔ _
  exact beq_iff_eq

end Comparison

section Integers
variable {integer integer' : Int}

/-- The integer that is the double of this one. -/
def closest : Int → Int
  | .ofNat n => rounded n
  | .negSucc n => -(rounded (n + 1))

theorem closest_mono (le : integer ≤ integer') : closest integer ≤ closest integer' := by
  cases integer with
  | ofNat n =>
    cases integer' with
    | ofNat n' => exact Int.ofNat_le.mpr (rounded_mono (Int.ofNat_le.mp le))
    | negSucc n' => exact absurd le (not_le.mpr ((Int.negSucc_lt_zero n').trans_le (Int.natCast_nonneg n)))
  | negSucc n =>
    cases integer' with
    | ofNat n' =>
      simp only [closest]
      omega
    | negSucc n' =>
      have magnitudes : rounded (n' + 1) ≤ rounded (n + 1) := rounded_mono (by omega)
      simp only [closest]
      omega

theorem closest_small (small : integer.natAbs ≤ 2 ^ 53) : closest integer = integer := by
  cases integer with
  | ofNat n => exact congrArg Int.ofNat (rounded_small small)
  | negSucc n => exact congrArg (fun magnitude : Nat => -(magnitude : Int)) (rounded_small small)

private theorem unpack_neg (x : Float) : x.neg.toModel.unpack = (Float.Model.pack x.toModel.unpack.neg).unpack := rfl

theorem ofInt_amounts (word : integer.natAbs < 2 ^ 64) :
    Amounts (Float.ofInt integer).toModel.unpack (closest integer) := by
  cases integer with
  | ofNat n =>
    rcases Nat.eq_zero_or_pos n with rfl | some
    · exact .zero .positive
    · obtain ⟨mantissa, exponent, full, found, same⟩ := ofNat_finite some.ne' word
      have amount : ((closest (.ofNat n) : Int) : ℚ) = mantissa * 2 ^ exponent := same.symm
      rw [amount, Float.ofInt, found]
      exact .positive full
  | negSucc n =>
    obtain ⟨mantissa, exponent, full, found, same⟩ := ofNat_finite (Nat.succ_ne_zero n) word
    have amount : ((closest (.negSucc n) : Int) : ℚ) = -(mantissa * 2 ^ exponent) := by
      rw [same, closest]
      push_cast
      rfl
    have opposite : (Float.neg (Float.ofNat (n + 1))).toModel.unpack = .finite .negative mantissa exponent full.pos := by
      rw [unpack_neg, found]
      exact unpack_pack full
    rw [amount, Float.ofInt, opposite]
    exact .negative full

variable (word : integer.natAbs < 2 ^ 64) (word' : integer'.natAbs < 2 ^ 64)
include word word'

private theorem compare_ofInt : (Float.ofInt integer).toModel.unpack.compare (Float.ofInt integer').toModel.unpack =
    some (compare (closest integer : ℚ) (closest integer')) :=
  (ofInt_amounts word).compare_eq (ofInt_amounts word')

theorem ofInt_lt : Float.ofInt integer < Float.ofInt integer' ↔ closest integer < closest integer' := by
  rw [lt_iff_compare, compare_ofInt word word', Option.some.injEq, compare_lt_iff_lt, Int.cast_lt]

theorem ofInt_beq : (Float.ofInt integer == Float.ofInt integer') = true ↔ closest integer = closest integer' := by
  rw [beq_iff_compare, compare_ofInt word word', Option.some.injEq, compare_eq_iff_eq, Int.cast_inj]

end Integers

end DiceNotation.Proofs.IntegerDoubles

import DiceNotation.Proofs.DoubleBits
import DiceNotation.Proofs.NearestDouble

/-! Reading decimals. Both ways of reading one divide its digits by a power of ten as doubles of any length, so a
decimal that lies in the basin of a double is read as that double. -/

namespace DiceNotation.Proofs.DecimalReading
open Float.Model Float.Model.UnpackedFloat
open Decimal ShortestDecimal NearestDouble DoubleBits

variable {mantissa digits places : Nat} {exponent : Int} {x : Float} {value divisor : ℚ}

/-- A positive number with nothing rounded off. -/
def Stands (unpacked : UnpackedFloat) (value : ℚ) : Prop :=
  ∃ mantissa exponent positive,
    unpacked = .finite .positive mantissa exponent positive ∧ (mantissa : ℚ) * 2 ^ exponent = value

theorem div_stands {unpacked unpacked' : UnpackedFloat} (stands : Stands unpacked value)
    (stands' : Stands unpacked' divisor) (full : Full mantissa exponent) (least : -1074 < exponent)
    (attracts : Attracts (Basin.ofFinite mantissa exponent) (value / divisor)) :
    UnpackedFloat.div .binary64 unpacked unpacked' = .finite .positive mantissa exponent full.pos := by
  obtain ⟨numerator, upper, some, rfl, rfl⟩ := stands
  obtain ⟨denominator, lower, positive, rfl, rfl⟩ := stands'
  exact div_eq some positive full.normal full.small least attracts

def aligned (n : Nat) : Nat := n * 2 ^ 52 / 2 ^ n.log2

private theorem powers : ∀ places < 23,
    (Float.exactlyRepresentablePowersOfTen[places]?.map fun power => power.toBits.toNat) =
        some (scale ((10 ^ places).log2 - 52) * 2 ^ 52 + (aligned (10 ^ places) - 2 ^ 52)) ∧
      aligned (10 ^ places) * 2 ^ (10 ^ places).log2 = 10 ^ places * 2 ^ 52 ∧
      2 ^ 52 ≤ aligned (10 ^ places) ∧ aligned (10 ^ places) < 2 ^ 53 ∧ (10 ^ places).log2 < 100 := by
  decide +kernel

/-- The powers of ten that are kept are exact. -/
theorem stands_power (inside : places < Float.exactlyRepresentablePowersOfTen.size) :
    Stands Float.exactlyRepresentablePowersOfTen[places].toModel.unpack (10 ^ places) := by
  obtain ⟨bits, exact, normal, small, short⟩ := powers places inside
  have full : Full (aligned (10 ^ places)) ((10 ^ places).log2 - 52) := ⟨normal, small, by omega, by omega⟩
  rw [Array.getElem?_eq_getElem inside, Option.map_some, Option.some.injEq] at bits
  -- A kept power is a literal, which only its bits can be compared by.
  have power : Float.exactlyRepresentablePowersOfTen[places] = .ofModel (.pack (.finite .positive _ _ full.pos)) :=
    ofBits_inj (bits.trans (toNat_pack full).symm)
  rw [power]
  refine ⟨_, _, _, unpack_pack full, ?_⟩
  rw [zpow_sub₀ (by norm_num), zpow_natCast, ← mul_div_assoc, div_eq_iff (by norm_num)]
  exact_mod_cast exact

private theorem full_shifted (some : 0 < digits) (small : digits < 2 ^ 53) :
    Full (digits * 2 ^ (52 - digits.log2)) (-(52 - digits.log2 : Nat)) := by
  have bits : digits.log2 < 53 := (Nat.log2_lt some.ne').mpr small
  have least := Nat.mul_le_mul_right (2 ^ (52 - digits.log2)) (Nat.log2_self_le some.ne')
  have most := Nat.mul_lt_mul_of_pos_right (Nat.lt_log2_self (n := digits)) (Nat.two_pow_pos (52 - digits.log2))
  rw [← Nat.pow_add] at least most
  rw [show digits.log2 + (52 - digits.log2) = 52 by omega] at least
  rw [show digits.log2 + 1 + (52 - digits.log2) = 53 by omega] at most
  exact ⟨least, most, by omega, by omega⟩

theorem ofNat_eq (some : 0 < digits) (small : digits < 2 ^ 53) :
    UnpackedFloat.ofNat .binary64 digits = .finite .positive (digits * 2 ^ (52 - digits.log2)) (-(52 - digits.log2 : Nat))
      (full_shifted some small).pos := by
  have bits : digits.log2 < 53 := (Nat.log2_lt some.ne').mpr small
  have target : Format.binary64.targetExponent (totalExponent digits 0) = -(52 - digits.log2 : Nat) := by
    rw [target_eq, totalExponent]
    omega
  have order : compare (digits : Int) 0 = .gt := Int.compare_eq_gt.mpr (by omega)
  have amount : (0 - -(52 - digits.log2 : Nat) : Int).toNat = 52 - digits.log2 := by omega
  have full := full_shifted some small
  rw [UnpackedFloat.ofNat, UnpackedFloat.ofInt, UnpackedFloat.normalize, order]
  dsimp only
  rw [Int.toNat_natCast, UnpackedFloat.round, target, decreaseExponent, amount, Nat.shiftLeft_eq, Int.zero_sub]
  exact roundWithAccuracy_exact full.normal full.small full.least

/-- Integers of no more than fifty-three bits are doubles. -/
theorem unpack_toFloat (some : 0 < digits) (small : digits < 2 ^ 53) :
    digits.toUInt64.toFloat.toModel.unpack = .finite .positive (digits * 2 ^ (52 - digits.log2)) (-(52 - digits.log2 : Nat))
      (full_shifted some small).pos := by
  have word : digits.toUInt64.toNat = digits := UInt64.toNat_ofNat_of_lt (small.trans (by decide))
  have model : digits.toUInt64.toFloat.toModel = .pack (UnpackedFloat.ofNat .binary64 digits.toUInt64.toNat) := rfl
  rw [model, word, ofNat_eq some small, unpack_pack (full_shifted some small)]

theorem stands_toFloat (some : 0 < digits) (small : digits < 2 ^ 53) :
    Stands digits.toUInt64.toFloat.toModel.unpack digits := by
  rw [unpack_toFloat some small]
  refine ⟨_, _, _, rfl, ?_⟩
  rw [zpow_neg, zpow_natCast]
  push_cast
  exact mul_inv_cancel_right₀ (by positivity) _

theorem ofScientific_div (some : 0 < digits) (placed : 0 < places) (near : places ≤ 2048 + digits.log2) :
    UnpackedFloat.ofScientific .binary64 digits (Int.negOfNat places) =
      .div .binary64 (.finite .positive digits 0 some) (.finite .positive (10 ^ places) 0 (Nat.pow_pos (by decide))) := by
  have negative : Int.negOfNat places = -(places : Int) := Int.negOfNat_eq
  have small : ¬ (-(places : Int) > 2 ^ 11) := by omega
  have large : ¬ (-(places : Int) < -((2 ^ 11 : Int) + digits.log2)) := by omega
  have below : ¬ 0 ≤ -(places : Int) := by omega
  rw [UnpackedFloat.ofScientific, dif_neg some.ne', negative, if_neg small, if_neg large, if_neg below]
  congr 2
  rw [Int.neg_neg, Int.toNat_natCast]

theorem ofScientific_eq (finite : Binary.ofFloat x = .finite false mantissa exponent) (full : Full mantissa exponent)
    (least : -1074 < exponent) (some : 0 < digits) (placed : 0 < places) (near : places ≤ 2048 + digits.log2)
    (attracts : Attracts (Basin.ofFinite mantissa exponent) (digits / 10 ^ places)) :
    Float.ofScientific digits true places = x := by
  have double {unpacked : UnpackedFloat} (divided : unpacked = .finite .positive mantissa exponent full.pos) :
      Float.ofModel (.pack unpacked) = x :=
    (congrArg (fun unpacked => Float.ofModel (.pack unpacked)) divided).trans (eq_pack finite full).symm
  rw [Float.ofScientific]
  split
  next short =>
    have kept : places < Float.exactlyRepresentablePowersOfTen.size := Nat.lt_succ_of_le short.2
    have divided := div_stands (stands_toFloat some short.1) (stands_power kept) full least attracts
    exact double divided
  next long =>
    have whole : Stands (.finite .positive digits 0 some) digits := ⟨_, _, _, rfl, by simp⟩
    have power : Stands (.finite .positive (10 ^ places) 0 (Nat.pow_pos (by decide))) (10 ^ places) :=
      ⟨_, _, _, rfl, by simp⟩
    have divided := div_stands whole power full least attracts
    rw [← ofScientific_div some placed near] at divided
    exact double divided

theorem ofScientific_zero (finite : Binary.ofFloat x = .finite false 0 exponent) : Float.ofScientific 0 true 1 = x := by
  obtain ⟨⟨-, -, bits⟩ | ⟨full, -⟩, nonneg⟩ := ofFloat_finite finite
  · rw [Nat.mod_eq_of_lt (nonneg rfl)] at bits
    have zero : (Float.ofScientific 0 true 1).toBits.toNat = 0 := by decide +kernel
    exact ofBits_inj (zero.trans bits.symm)
  · exact absurd full.pos (Nat.lt_irrefl 0)

end DiceNotation.Proofs.DecimalReading

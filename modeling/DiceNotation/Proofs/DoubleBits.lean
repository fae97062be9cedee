import DiceNotation.Decimal.Binary
import Mathlib.Algebra.Group.Nat.Defs

/-! The bits of doubles. A double of full length has the scale and the fraction that its mantissa and its exponent
say, so it can be built from these and taken apart again without loss. -/

namespace DiceNotation.Proofs.DoubleBits
open Float.Model Float.Model.UnpackedFloat
open Decimal

variable {mantissa : Nat} {exponent : Int} {x : Float}

/-- The mantissas that fill their place, with the exponents that go with them. -/
structure Full (mantissa : Nat) (exponent : Int) : Prop where
  normal : 2 ^ 52 ≤ mantissa
  small : mantissa < 2 ^ 53
  least : -1074 ≤ exponent
  most : exponent ≤ 971

theorem Full.pos (full : Full mantissa exponent) : 0 < mantissa := Nat.lt_of_lt_of_le (by decide) full.normal

def scale (exponent : Int) : Nat := (exponent + 1075).toNat

theorem pack_full {sign : UnpackedFloat.Sign} (full : Full mantissa exponent) :
    UnpackedFloat.pack .binary64 (.finite sign mantissa exponent full.pos) =
      packComponents .binary64 sign (BitVec.ofNat 11 (scale exponent)) (BitVec.ofNat 52 mantissa) := by
  have bits : mantissa.log2 = 52 := (Nat.log2_eq_iff (Nat.ne_of_gt full.pos)).mpr ⟨full.normal, full.small⟩
  have bias : (exponent + (Format.binary64.exponentBias : Nat) + (52 : Nat)).toNat = scale exponent := by
    simp only [Format.exponentBias, scale]
    omega
  have fits : ¬ 2 ^ 11 ≤ scale exponent + 1 := by
    have most := full.most
    rw [scale]
    omega
  unfold UnpackedFloat.pack
  simp only [bias, bits]
  rw [if_neg fits]
  rfl

private theorem toNat_append {width width' : Nat} (front : BitVec width) (back : BitVec width') :
    (front ++ back).toNat = front.toNat * 2 ^ width' + back.toNat := by
  rw [BitVec.toNat_append, ← Nat.shiftLeft_add_eq_or_of_lt back.isLt, Nat.shiftLeft_eq]

theorem toNat_pack (full : Full mantissa exponent) :
    (Float.Model.pack (.finite .positive mantissa exponent full.pos)).toBits.toNat =
      scale exponent * 2 ^ 52 + (mantissa - 2 ^ 52) := by
  obtain ⟨normal, small, least, most⟩ := full
  have sign : (UnpackedFloat.Sign.positive.toBitVec).toNat = 0 := rfl
  change (UnpackedFloat.pack .binary64 _).toNat = _
  rw [pack_full ⟨normal, small, least, most⟩, packComponents]
  simp only [toNat_append, sign, BitVec.toNat_ofNat, scale]
  omega

private theorem unpackSign_parts (sign : UnpackedFloat.Sign) (biased : BitVec 11) (fraction : BitVec 52) :
    unpackSign (packComponents .binary64 sign biased fraction) = sign.toBitVec := by
  change BitVec.extractLsb' 63 1 (sign.toBitVec ++ biased ++ fraction) = sign.toBitVec
  rw [BitVec.extractLsb'_append_eq_of_le (by decide)]
  exact BitVec.extractLsb'_append_eq_left

/-- A double of full length is taken apart as it was put together. -/
theorem unpack_pack {sign : UnpackedFloat.Sign} (full : Full mantissa exponent) :
    (Float.Model.pack (.finite sign mantissa exponent full.pos)).unpack = .finite sign mantissa exponent full.pos := by
  obtain ⟨normal, small, least, most⟩ := full
  have stored : (BitVec.ofNat 11 (scale exponent)).toNat = scale exponent := by
    rw [BitVec.toNat_ofNat, scale]
    omega
  change UnpackedFloat.unpack .binary64 (UnpackedFloat.pack .binary64 _) = _
  rw [pack_full ⟨normal, small, least, most⟩]
  unfold UnpackedFloat.unpack
  dsimp only
  rw [unpackExponent_packComponents]
  have some : BitVec.ofNat 11 (scale exponent) ≠ 0#11 := fun none => by
    rw [none, BitVec.toNat_zero, scale] at stored
    omega
  have finite : BitVec.ofNat 11 (scale exponent) ≠ -1#11 := fun all => by
    rw [all, scale] at stored
    simp at stored
    omega
  rw [if_neg finite, if_neg some]
  have whole : (1#1 ++ BitVec.ofNat 52 mantissa).toNat = mantissa := by
    rw [toNat_append]
    simp only [BitVec.toNat_ofNat]
    omega
  have bias : Format.binary64.exponentBias = 1023 := rfl
  congr 1
  · rw [unpackSign_parts]
    cases sign <;> rfl
  · rw [unpackMantissa_packComponents, whole]
  · rw [stored, bias, scale]
    omega

theorem ofBits_inj {y : Float} (same : x.toBits.toNat = y.toBits.toNat) : x = y := by
  obtain ⟨⟨bits, valid⟩⟩ := x
  obtain ⟨⟨bits', valid'⟩⟩ := y
  obtain rfl : bits = bits' := UInt64.toNat_inj.mp same
  rfl

/-- What the bits of a finite double say. -/
theorem ofFloat_finite {negative : Bool} (finite : Binary.ofFloat x = .finite negative mantissa exponent) :
    (mantissa < 2 ^ 52 ∧ exponent = -1074 ∧ x.toBits.toNat % 2 ^ 63 = mantissa ∨
      Full mantissa exponent ∧ x.toBits.toNat % 2 ^ 63 = scale exponent * 2 ^ 52 + (mantissa - 2 ^ 52)) ∧
      (negative = false → x.toBits.toNat < 2 ^ 63) := by
  have words := x.toBits.toNat_lt
  rw [Binary.ofFloat] at finite
  generalize x.toBits.toNat = bits at *
  rw [Binary.leadingBit] at finite
  split at finite
  · split at finite <;> contradiction
  next notTop =>
    split at finite
    next subnormal =>
      simp only [Binary.finite.injEq, Binary.leastExponent] at finite
      obtain ⟨sign, rfl, rfl⟩ := finite
      refine ⟨.inl ⟨Nat.mod_lt _ (by decide), rfl, by omega⟩, fun nonneg => ?_⟩
      rw [nonneg, decide_eq_false_iff_not] at sign
      omega
    next regular =>
      simp only [Binary.finite.injEq, Binary.leastExponent] at finite
      obtain ⟨sign, rfl, rfl⟩ := finite
      refine ⟨.inr ⟨⟨by omega, by omega, by omega, by omega⟩, by rw [scale]; omega⟩, fun nonneg => ?_⟩
      rw [nonneg, decide_eq_false_iff_not] at sign
      omega

/-- A double of full length is the one that its mantissa and its exponent are put together to. -/
theorem eq_pack (finite : Binary.ofFloat x = .finite false mantissa exponent) (full : Full mantissa exponent) :
    x = .ofModel (.pack (.finite .positive mantissa exponent full.pos)) := by
  have normal := full.normal
  have packed := toNat_pack full
  obtain ⟨⟨small, -⟩ | ⟨-, bits⟩, nonneg⟩ := ofFloat_finite finite
  · omega
  · rw [Nat.mod_eq_of_lt (nonneg rfl)] at bits
    exact ofBits_inj (bits.trans packed.symm)

end DiceNotation.Proofs.DoubleBits

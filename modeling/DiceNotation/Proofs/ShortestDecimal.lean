import DiceNotation.Decimal.Shortest
import Mathlib.Algebra.Order.Field.Power
import Mathlib.Data.Rat.Cast.Order
import Mathlib.Tactic.Linarith
import Mathlib.Tactic.Positivity

/-! The shortest decimal of a double is one that rounds to it. Some grid among those that are tried is at least as
fine as a quarter of the last binary place, and on such a grid the point below the double lies in its basin. -/

namespace DiceNotation.Proofs.ShortestDecimal
open Decimal

variable {basin : Basin} {place : Int} {digits tries mantissa : Nat} {exponent : Int}

def Attracts (basin : Basin) (value : ℚ) : Prop :=
  if basin.closed then basin.low * 2 ^ basin.unit ≤ value ∧ value ≤ basin.high * 2 ^ basin.unit
  else basin.low * 2 ^ basin.unit < value ∧ value < basin.high * 2 ^ basin.unit

theorem Attracts.within {value : ℚ} (attracts : Attracts basin value) :
    basin.low * 2 ^ basin.unit ≤ value ∧ value ≤ basin.high * 2 ^ basin.unit := by
  rw [Attracts] at attracts
  split at attracts
  · exact attracts
  · exact ⟨attracts.1.le, attracts.2.le⟩

def value (decimal : Decimal) : ℚ := decimal.digits * 10 ^ decimal.exponent

private theorem pow_cleared (base : ℚ) (nonzero : base ≠ 0) (power : Int) :
    base ^ power.toNat = base ^ power * base ^ (-power).toNat := by
  rw [← zpow_natCast, ← zpow_natCast, ← zpow_add₀ nonzero]
  congr 1
  omega

private theorem binary_cleared (basin : Basin) (place : Int) :
    (basin.binary place : ℚ) = 2 ^ basin.unit * (2 ^ (-basin.unit).toNat * 10 ^ (-place).toNat) := by
  rw [← mul_assoc, ← pow_cleared 2 (by norm_num)]
  simp [Basin.binary]

private theorem grid_cleared (basin : Basin) (place : Int) :
    (basin.grid place : ℚ) = 10 ^ place * (2 ^ (-basin.unit).toNat * 10 ^ (-place).toNat) := by
  rw [mul_comm (2 ^ (-basin.unit).toNat), ← mul_assoc, ← pow_cleared 10 (by norm_num)]
  simp [Basin.grid]

/-- Comparing the cleared integers compares the numbers. -/
theorem holds_iff : basin.holds place digits = true ↔ Attracts basin (value ⟨digits, place⟩) := by
  have positive : (0 : ℚ) < 2 ^ (-basin.unit).toNat * 10 ^ (-place).toNat := by positivity
  have scale (bound : Nat) : (bound * basin.binary place ≤ digits * basin.grid place ↔
        (bound : ℚ) * 2 ^ basin.unit ≤ digits * 10 ^ place) ∧
      (digits * basin.grid place ≤ bound * basin.binary place ↔
        (digits : ℚ) * 10 ^ place ≤ bound * 2 ^ basin.unit) := by
    rw [← Nat.cast_le (α := ℚ), ← Nat.cast_le (α := ℚ)]
    push_cast
    rw [binary_cleared, grid_cleared, ← mul_assoc (bound : ℚ), ← mul_assoc (digits : ℚ),
      mul_le_mul_iff_left₀ positive, mul_le_mul_iff_left₀ positive]
    exact ⟨Iff.rfl, Iff.rfl⟩
  rw [Basin.holds, Attracts, value]
  split
  · simp only [Bool.and_eq_true, decide_eq_true_eq, (scale _).1, (scale _).2]
  · simp only [Bool.and_eq_true, decide_eq_true_eq, ← not_le, (scale _).1, (scale _).2]

theorem holds_point? (found : basin.point? place = some digits) : basin.holds place digits = true := by
  rw [Basin.point?] at found
  split at found
  · contradiction
  · simp_all
  · simp_all
  next below above =>
    obtain rfl := Option.some.inj found
    split
    · exact below
    · exact above

/-- What is found on the first grid that holds a point is in the basin. -/
theorem attracts_search (hit : ∃ step < tries, basin.point? (place - step) ≠ none) :
    Attracts basin (value (basin.search tries place)) := by
  induction tries generalizing place with
  | zero =>
    obtain ⟨_, none, -⟩ := hit
    exact absurd none (Nat.not_lt_zero _)
  | succ tries ih =>
    rw [Basin.search]
    cases found : basin.point? place with
    | some digits => exact holds_iff.mp (holds_point? found)
    | none =>
      apply ih
      obtain ⟨step, few, hit⟩ := hit
      cases step with
      | zero => simp [found] at hit
      | succ step =>
        have same : place - 1 - (step : Int) = place - ((step + 1 : Nat) : Int) := by omega
        exact ⟨step, by omega, by rwa [same]⟩

private theorem grid_pos (basin : Basin) (place : Int) : 0 < basin.grid place :=
  Nat.mul_pos (Nat.pow_pos (by decide)) (Nat.pow_pos (by decide))

private theorem binary_pos (basin : Basin) (place : Int) : 0 < basin.binary place :=
  Nat.mul_pos (Nat.pow_pos (by decide)) (Nat.pow_pos (by decide))

/-- On a fine grid the point below the centre is not below the basin. -/
theorem holds_floor (fine : basin.grid place ≤ basin.binary place) (low : basin.low < basin.centre)
    (high : basin.centre < basin.high) : basin.holds place (basin.floor place) = true := by
  have split := Nat.div_add_mod (basin.centre * basin.binary place) (basin.grid place)
  have rest := Nat.mod_lt (basin.centre * basin.binary place) (grid_pos basin place)
  have above : (basin.low + 1) * basin.binary place ≤ basin.centre * basin.binary place := Nat.mul_le_mul_right _ low
  have below : (basin.centre + 1) * basin.binary place ≤ basin.high * basin.binary place := Nat.mul_le_mul_right _ high
  have positive := binary_pos basin place
  rw [Nat.add_mul] at above below
  rw [Basin.holds, Basin.floor]
  rw [Nat.mul_comm] at split
  split <;> simp only [Bool.and_eq_true, decide_eq_true_eq] <;> omega

theorem point?_fine (fine : basin.grid place ≤ basin.binary place) (low : basin.low < basin.centre)
    (high : basin.centre < basin.high) : basin.point? place ≠ none := by
  have held := holds_floor fine low high
  rw [Basin.point?, held]
  split <;> simp_all

private theorem ten_le_two {tens twos : Nat} (shorter : 196 * tens ≤ 59 * twos) : 10 ^ tens ≤ 2 ^ twos := by
  have each : (10 ^ tens) ^ 59 ≤ (2 ^ twos) ^ 59 :=
    calc (10 ^ tens) ^ 59 = (10 ^ 59) ^ tens := by rw [← Nat.pow_mul, ← Nat.pow_mul, Nat.mul_comm]
      _ ≤ (2 ^ 196) ^ tens := Nat.pow_le_pow_left (by norm_num) _
      _ = 2 ^ (196 * tens) := (Nat.pow_mul ..).symm
      _ ≤ 2 ^ (59 * twos) := Nat.pow_le_pow_right (by decide) shorter
      _ = (2 ^ twos) ^ 59 := by rw [← Nat.pow_mul, Nat.mul_comm]
  exact (Nat.pow_le_pow_iff_left (by decide)).mp each

private theorem two_le_ten {tens twos : Nat} (longer : 28 * twos ≤ 93 * tens) : 2 ^ twos ≤ 10 ^ tens := by
  have each : (2 ^ twos) ^ 93 ≤ (10 ^ tens) ^ 93 :=
    calc (2 ^ twos) ^ 93 = (2 ^ 93) ^ twos := by rw [← Nat.pow_mul, ← Nat.pow_mul, Nat.mul_comm]
      _ ≤ (10 ^ 28) ^ twos := Nat.pow_le_pow_left (by norm_num) _
      _ = 10 ^ (28 * twos) := (Nat.pow_mul ..).symm
      _ ≤ 10 ^ (93 * tens) := Nat.pow_le_pow_right (by decide) longer
      _ = (10 ^ tens) ^ 93 := by rw [← Nat.pow_mul, Nat.mul_comm]
  exact (Nat.pow_le_pow_iff_left (by decide)).mp each

private theorem grid_le_binary (up : 0 ≤ place → 196 * place ≤ 59 * basin.unit)
    (down : place ≤ 0 → -28 * basin.unit ≤ -93 * place) : basin.grid place ≤ basin.binary place := by
  rcases Int.le_total 0 place with high | low
  · have unit : 0 ≤ basin.unit := by
      have := up high
      omega
    have powers : 10 ^ place.toNat ≤ 2 ^ basin.unit.toNat := ten_le_two (by have := up high; omega)
    have none : (-basin.unit).toNat = 0 := by omega
    have none' : (-place).toNat = 0 := by omega
    simpa [Basin.grid, Basin.binary, none, none'] using powers
  · have powers : 2 ^ (-basin.unit).toNat ≤ 10 ^ (-place).toNat := two_le_ten (by have := down low; omega)
    have none : place.toNat = 0 := by omega
    simp only [Basin.grid, Basin.binary, none]
    exact (Nat.mul_le_mul (Nat.le_refl 1) powers).trans (Nat.mul_le_mul_right _ (Nat.pow_pos (by decide)))

theorem attracts_shortest (positive : 0 < mantissa) (small : mantissa < 2 ^ 53) (least : Binary.leastExponent ≤ exponent)
    (most : exponent ≤ 971) : Attracts (Basin.ofFinite mantissa exponent) (value (shortest mantissa exponent)) := by
  have bits : mantissa.log2 < 53 := (Nat.log2_lt (by omega)).mpr small
  rw [Binary.leastExponent] at least
  -- The first grid is about as coarse as the double is large, so the last one is finer than a quarter of its last place.
  have fine : (Basin.ofFinite mantissa exponent).point? (topPlace mantissa exponent - (23 : Nat)) ≠ none := by
    refine point?_fine (grid_le_binary ?_ ?_) ?_ ?_
    · simp only [Basin.ofFinite, topPlace]
      omega
    · simp only [Basin.ofFinite, topPlace]
      omega
    · simp only [Basin.ofFinite]
      split <;> omega
    · simp only [Basin.ofFinite]
      omega
  exact attracts_search ⟨23, by decide, fine⟩

end DiceNotation.Proofs.ShortestDecimal

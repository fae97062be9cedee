import DiceNotation.Proofs.Drops
import DiceNotation.Proofs.Faces
import DiceNotation.Proofs.Runs
import Mathlib.Algebra.Group.Action.Defs
import Mathlib.Algebra.Order.BigOperators.Group.List
import Mathlib.Algebra.Order.Ring.Nat

/-! The range of a roll. Dropping takes away as many faces as it says and no others, so what is kept sums to no
less than a one for each and no more than the last side for each; both ends are reached. -/

namespace DiceNotation.Proofs.RollRange
open Drops Faces

variable {bound : UInt32}

section Sums
variable {throw : Throw}

theorem sum_eq (throw : Throw) : throw.sum = (throw.kept.map UInt32.toNat).sum := by
  rw [Throw.sum, List.sum_eq_foldr, List.foldr_map]

theorem sum_ge (each : ∀ face ∈ throw.kept, 1 ≤ face.toNat) : throw.kept.length ≤ throw.sum := by
  have bound := List.length_le_sum_of_one_le (throw.kept.map UInt32.toNat) (List.forall_mem_map.mpr each)
  rwa [List.length_map, ← sum_eq] at bound

theorem sum_le (each : ∀ face ∈ throw.kept, face.toNat ≤ bound.toNat) :
    throw.sum ≤ bound.toNat * throw.kept.length := by
  have bound := List.sum_le_card_nsmul (throw.kept.map UInt32.toNat) bound.toNat (List.forall_mem_map.mpr each)
  rwa [List.length_map, smul_eq_mul, Nat.mul_comm, ← sum_eq] at bound

theorem sum_same {face : UInt32} (each : ∀ other ∈ throw.kept, other = face) :
    throw.sum = face.toNat * throw.kept.length := by
  have same := List.sum_eq_card_nsmul (throw.kept.map UInt32.toNat) face.toNat
    (List.forall_mem_map.mpr fun other member => congrArg UInt32.toNat (each other member))
  rwa [List.length_map, smul_eq_mul, Nat.mul_comm, ← sum_eq] at same

end Sums

section Dice
variable {dice : Dice} {words : Words}

/-- Neither of the two differences goes below zero, and the product stays in 64 bits. -/
structure Unwrapped (dice : Dice) : Prop where
  lowest : dice.dropLowest ≤ dice.amount
  highest : dice.dropHighest ≤ dice.amount - dice.dropLowest
  product : dice.sides.toUInt64.toNat * dice.kept.toUInt64.toNat < UInt64.size

theorem unwrapped (dice : Dice) : Unwrapped dice := by
  have fits := dice.dropped_le_amount
  have sides := dice.sides.toNat_lt
  have kept := dice.kept.toNat_lt
  rw [Dice.Draft.dropped] at fits
  have lowest : dice.dropLowest ≤ dice.amount := UInt32.le_iff_toNat_le.mpr (by omega)
  refine ⟨lowest, UInt32.le_iff_toNat_le.mpr ?_, ?_⟩
  · rw [UInt32.toNat_sub_of_le _ _ lowest]
    omega
  · rw [UInt32.toNat_toUInt64, UInt32.toNat_toUInt64]
    exact Nat.mul_lt_mul'' sides kept

theorem least_eq (dice : Dice) :
    dice.least.toNat = dice.amount.toNat - dice.dropLowest.toNat - dice.dropHighest.toNat := by
  obtain ⟨lowest, highest, -⟩ := unwrapped dice
  rw [Dice.least, UInt32.toNat_toUInt64, Dice.kept, UInt32.toNat_sub_of_le _ _ highest, UInt32.toNat_sub_of_le _ _ lowest]

theorem greatest_eq (dice : Dice) : dice.greatest.toNat = dice.sides.toNat * dice.least.toNat := by
  have product := (unwrapped dice).product
  rw [Dice.greatest, UInt64.toNat_mul, Nat.mod_eq_of_lt product]
  rfl

structure Rolled (dice : Dice) (words : Words) (throw : Throw) (words' : Words) : Prop where
  kept : throw.kept.length = dice.amount.toNat - dice.dropLowest.toNat - dice.dropHighest.toNat
  dropped : throw.dropped.length = dice.dropLowest.toNat + dice.dropHighest.toNat
  shown : ∀ face ∈ throw.kept ++ throw.dropped, 1 ≤ face.toNat ∧ face.toNat ≤ dice.sides.toNat
  source : words'.word = words.word
  some : words.drawn + dice.amount.toNat ≤ words'.drawn
  few : words'.drawn ≤ words.drawn + 2 * dice.amount.toNat
  least : dice.least.toNat ≤ throw.sum
  greatest : throw.sum ≤ dice.greatest.toNat

theorem roll_value (dice : Dice) (words : Words) :
    (dice.roll words).value = (dice.throwOf (dice.faces words).1, (dice.faces words).2) := rfl

private theorem sides_pos (dice : Dice) : 0 < dice.sides.toNat :=
  Nat.pos_of_ne_zero fun zero => dice.sides_ne_zero (UInt32.toNat_inj.mp zero)

/-- What is dropped and what is kept are the faces drawn. -/
theorem kept_dropped (dice : Dice) (words : Words) :
    (dice.throwOf (dice.faces words).1).dropped.length = dice.dropLowest.toNat + dice.dropHighest.toNat ∧
      ((dice.throwOf (dice.faces words).1).dropped ++ (dice.throwOf (dice.faces words).1).kept).Perm (dice.faces words).1 := by
  have enough : dice.dropLowest.toNat + dice.dropHighest.toNat ≤ (dice.faces words).1.length := by
    rw [Dice.faces, (allShown_faces (sides_pos dice) _).length]
    exact dice.dropped_le_amount
  exact ⟨length_dropped enough, dropExtremes_perm _ _ _⟩

private theorem kept_length (dice : Dice) (words : Words) :
    (dice.throwOf (dice.faces words).1).kept.length = dice.least.toNat := by
  obtain ⟨dropped, perm⟩ := kept_dropped dice words
  have length := perm.length_eq
  rw [List.length_append, dropped, Dice.faces, (allShown_faces (sides_pos dice) _).length] at length
  rw [least_eq]
  dsimp only [Dice.faces] at length ⊢
  omega

theorem rolled (dice : Dice) (words : Words) : Rolled dice words (dice.roll words).value.1 (dice.roll words).value.2 := by
  have shown : AllShown _ _ _ (dice.faces words) := allShown_faces (sides_pos dice) dice.amount.toNat
  obtain ⟨dropped, perm⟩ := kept_dropped dice words
  have length := kept_length dice words
  have each : ∀ face ∈ (dice.throwOf (dice.faces words).1).kept, 1 ≤ face.toNat ∧ face.toNat ≤ dice.sides.toNat :=
    fun face member => shown.each face (perm.subset (List.mem_append_right _ member))
  rw [roll_value]
  refine ⟨length.trans (least_eq dice), dropped, ?_, shown.source, shown.some, shown.few, ?_, ?_⟩
  · intro face member
    exact shown.each face ((List.perm_append_comm.trans perm).subset member)
  · rw [← length]
    exact sum_ge fun face member => (each face member).1
  · rw [greatest_eq, ← length]
    exact sum_le fun face member => (each face member).2

private theorem roll_same {face : UInt32} (faces : (dice.faces words).1 = List.replicate dice.amount.toNat face) :
    (dice.roll words).value.1.sum = face.toNat * dice.least.toNat := by
  obtain ⟨-, perm⟩ := kept_dropped dice words
  rw [← kept_length dice words, roll_value]
  refine sum_same fun other member => ?_
  have shown := perm.subset (List.mem_append_right _ member)
  rw [faces] at shown
  exact List.eq_of_mem_replicate shown

theorem roll_least (dice : Dice) : (dice.roll (constant 0)).value.1.sum = dice.least.toNat := by
  rw [roll_same (faces_zero (sides_pos dice) _)]
  exact Nat.one_mul _

theorem roll_greatest (dice : Dice) : (dice.roll (constant (-1))).value.1.sum = dice.greatest.toNat := by
  rw [roll_same (faces_top (sides_pos dice) _), greatest_eq]

/-- A roll stays between the two ends of the reported range, and some source rolls each of them. -/
theorem roll_within_range (dice : Dice) :
    Unwrapped dice ∧ (∀ words, Rolled dice words (dice.roll words).value.1 (dice.roll words).value.2) ∧
      (∃ words, (dice.roll words).value.1.sum = dice.least.toNat) ∧
      ∃ words, (dice.roll words).value.1.sum = dice.greatest.toNat :=
  ⟨unwrapped dice, rolled dice, ⟨constant 0, roll_least dice⟩, constant (-1), roll_greatest dice⟩

end Dice

end DiceNotation.Proofs.RollRange

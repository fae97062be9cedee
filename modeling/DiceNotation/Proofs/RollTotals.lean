import DiceNotation.Proofs.IntegerRange
import DiceNotation.Proofs.RollRange

/-! The total of a roll. It is the sum of the faces kept for as long as that has a word of 64 bits; the faces of dice that
can show more are added up past the end of the words, and then the total is another number. -/

namespace DiceNotation.Proofs.RollTotals
open IntegerRange Faces RollRange

variable {dice : Dice} {throw : Throw}

/-- Adds one face after the other, and stops where a sum has no word. -/
def addUp (faces : List UInt32) : Option Int64 :=
  faces.foldlM (fun total face => Number.fit? (total.toInt + face.toNat)) 0

/-- Faces are added to what there is already, and once a sum is too large all further ones would be. -/
private theorem addUp_from (faces : List UInt32) (total : Int64) (nonneg : 0 ≤ total.toInt) :
    faces.foldlM (fun total face => Number.fit? (total.toInt + face.toNat)) total =
      Number.fit? (total.toInt + (faces.map UInt32.toNat).sum) := by
  induction faces generalizing total with
  | nil => simp
  | cons face rest ih =>
    rw [List.foldlM_cons, List.map_cons, List.sum_cons, Int.natCast_add, ← Int.add_assoc]
    cases fits : Number.fit? (total.toInt + face.toNat) with
    | some next =>
      have sum := fit?_eq_some.mp fits
      exact (ih next (by omega)).trans (by rw [sum])
    | none =>
      have outside := fit?_eq_none.mp fits
      have negative : Int64.minValue.toInt ≤ 0 := by decide
      refine (fit?_eq_none.mpr fun range => outside ⟨?_, ?_⟩).symm
      · omega
      · have high := range.2
        omega

theorem addUp_eq (throw : Throw) : addUp throw.kept = Number.fit? throw.sum := by
  rw [addUp, addUp_from _ _ (by decide), Int64.toInt_zero, Int.zero_add, sum_eq]

theorem total_eq (throw : Throw) : throw.total.toInt = (throw.sum : Int).bmod Int64.size := Int64.toInt_ofNat'

/-- The total is the sum of what was kept and lies in the range that the dice report, and no sum on the way to it is too
large. -/
structure Exact (dice : Dice) (throw : Throw) : Prop where
  added : addUp throw.kept = some throw.total
  sum : throw.total.toInt = throw.sum
  least : dice.least.toNat ≤ throw.total.toInt
  greatest : throw.total.toInt ≤ dice.greatest.toNat

/-- A sum on the way to the total is too large, and the total is below all that can be thrown. -/
structure Wrapped (throw : Throw) : Prop where
  added : addUp throw.kept = none
  sum : throw.total.toInt = throw.sum - Int64.size
  negative : throw.total.toInt < 0

section Rolls
variable {words : Words}

private theorem sum_inRange (throw : Throw) : InRange throw.sum ↔ (throw.sum : Int) ≤ Int64.maxValue.toInt := by
  have negative : Int64.minValue.toInt ≤ 0 := by decide
  exact ⟨And.right, fun high => ⟨by omega, high⟩⟩

theorem exact_of_sum (fits : ((dice.roll words).value.1.sum : Int) ≤ Int64.maxValue.toInt) :
    Exact dice (dice.roll words).value.1 := by
  have inside := rolled dice words
  have total : (dice.roll words).value.1.total.toInt = (dice.roll words).value.1.sum := by
    rw [Int64.toInt_maxValue] at fits
    rw [total_eq, Int.bmod_eq_of_le] <;> simp only [Int64.size] <;> omega
  refine ⟨?_, total, ?_, ?_⟩
  · rw [addUp_eq, fit?_eq_some]
    exact total
  · rw [total]
    exact Int.ofNat_le.mpr inside.least
  · rw [total]
    exact Int.ofNat_le.mpr inside.greatest

theorem wrapped_of_sum (large : ¬ ((dice.roll words).value.1.sum : Int) ≤ Int64.maxValue.toInt) :
    Wrapped (dice.roll words).value.1 := by
  have below : (dice.roll words).value.1.sum < UInt64.size :=
    Nat.lt_of_le_of_lt (rolled dice words).greatest dice.greatest.toNat_lt
  have total : (dice.roll words).value.1.total.toInt = (dice.roll words).value.1.sum - Int64.size := by
    rw [Int64.toInt_maxValue] at large
    have word : ((dice.roll words).value.1.sum : Int) % Int64.size = (dice.roll words).value.1.sum :=
      Int.emod_eq_of_lt (Int.natCast_nonneg _) (Int.ofNat_lt.mpr below)
    rw [total_eq, Int.bmod_neg, word]
    rw [word]
    simp only [Int64.size]
    omega
  refine ⟨?_, total, ?_⟩
  · rw [addUp_eq, fit?_eq_none, sum_inRange]
    exact large
  · rw [total]
    simp only [Int64.size, UInt64.size] at below ⊢
    omega

end Rolls

/-- Rolls whose sums have a word are totalled exactly and all others wrap, so the totals of dice are always exact if the
greatest that they report has a word, and only then. -/
theorem roll_totals (dice : Dice) :
    (∀ words, Exact dice (dice.roll words).value.1 ↔ ((dice.roll words).value.1.sum : Int) ≤ Int64.maxValue.toInt) ∧
    (∀ words, Wrapped (dice.roll words).value.1 ↔ ¬ ((dice.roll words).value.1.sum : Int) ≤ Int64.maxValue.toInt) ∧
    ((∀ words, Exact dice (dice.roll words).value.1) ↔ (dice.greatest.toNat : Int) ≤ Int64.maxValue.toInt) := by
  refine ⟨fun words => ⟨fun exact => ?_, exact_of_sum⟩, fun words => ⟨fun wrapped fits => ?_, wrapped_of_sum⟩, ?_, ?_⟩
  · rw [← exact.sum]
    exact Int64.toInt_le _
  · exact absurd ((exact_of_sum fits).added.symm.trans wrapped.added) (by simp)
  · intro always
    rw [← roll_greatest, ← (always _).sum]
    exact Int64.toInt_le _
  · intro fits words
    have inside := Int.ofNat_le.mpr (rolled dice words).greatest
    exact exact_of_sum (Int.le_trans inside fits)

/-- The fewest dice of the most sides that can be added up past the end of the words. -/
def largest : Dice.Draft := { sides := 4294967295, amount := 2147483649 }

theorem largest_wraps : ∃ dice, largest.build = .ok dice ∧ ∃ words, (dice.roll words).value.1.sum = 9223372039002259455 ∧
    (dice.roll words).value.1.total.toInt = -9223372034707292161 ∧ addUp (dice.roll words).value.1.kept = none ∧
    ¬ Exact dice (dice.roll words).value.1 := by
  have built : largest.build = .ok ⟨largest, by decide, by decide⟩ := rfl
  refine ⟨_, built, constant (-1), ?_⟩
  have sum := roll_greatest ⟨largest, by decide, by decide⟩
  have top : (Dice.greatest ⟨largest, by decide, by decide⟩).toNat = 9223372039002259455 := by decide +kernel
  rw [top] at sum
  have wrapped := wrapped_of_sum (by rw [sum]; decide)
  refine ⟨sum, ?_, wrapped.added, fun exact => ?_⟩
  · rw [wrapped.sum, sum]
    rfl
  · exact absurd (exact.added.symm.trans wrapped.added) (by simp)

end DiceNotation.Proofs.RollTotals

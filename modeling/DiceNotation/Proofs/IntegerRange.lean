import DiceNotation.Expression.Number

/-! The integers that have a word of their own, and what becomes of the others. -/

namespace DiceNotation.Proofs.IntegerRange
open Expression (Fault)

variable {exact : Int} {value : Int64}

def InRange (exact : Int) : Prop := Int64.minValue.toInt ≤ exact ∧ exact ≤ Int64.maxValue.toInt

instance (exact : Int) : Decidable (InRange exact) := inferInstanceAs (Decidable (_ ∧ _))

theorem inRange_toInt (value : Int64) : InRange value.toInt := ⟨value.minValue_le_toInt, value.toInt_le⟩

theorem fit?_inRange (range : InRange exact) : Number.fit? exact = some (Int64.ofInt exact) :=
  if_pos range

theorem fit?_eq_none : Number.fit? exact = none ↔ ¬ InRange exact := by
  constructor
  · intro missing range
    rw [fit?_inRange range] at missing
    contradiction
  · intro outside
    exact if_neg outside

@[simp] theorem fit?_toInt (value : Int64) : Number.fit? value.toInt = some value := by
  rw [fit?_inRange (inRange_toInt value), Int64.ofInt_toInt]

theorem fit?_eq_some : Number.fit? exact = some value ↔ value.toInt = exact := by
  constructor
  · intro fits
    by_cases range : InRange exact
    · rw [fit?_inRange range, Option.some.injEq] at fits
      rw [← fits]
      exact Int64.toInt_ofInt_of_le range.1 (Int.lt_of_le_of_lt range.2 (by decide))
    · rw [fit?_eq_none.mpr range] at fits
      contradiction
  · rintro rfl
    exact fit?_toInt value

theorem ofExact_toInt (value : Int64) : Number.ofExact value.toInt = .ok (.int value) := by
  rw [Number.ofExact, fit?_toInt]
  rfl

theorem ofExact_inRange (range : InRange exact) : ∃ value : Int64, Number.ofExact exact = .ok (.int value) ∧
    value.toInt = exact := by
  refine ⟨Int64.ofInt exact, ?_, fit?_eq_some.mp (fit?_inRange range)⟩
  rw [Number.ofExact, fit?_inRange range]
  rfl

theorem ofExact_outside (outside : ¬ InRange exact) : Number.ofExact exact = .error .overflow := by
  rw [Number.ofExact, fit?_eq_none.mpr outside]
  rfl

private theorem fdiv_of_tdiv {left right : Int} (divisor : right ≠ 0) : left.fdiv right =
    if left.tmod right ≠ 0 ∧ decide (left < 0) ≠ decide (right < 0) then left.tdiv right - 1 else left.tdiv right := by
  have whole : right ∣ left ↔ left.tmod right = 0 := ⟨Int.tmod_eq_zero_of_dvd, Int.dvd_of_tmod_eq_zero⟩
  rw [Int.fdiv_eq_tdiv]
  by_cases rest : left.tmod right = 0
  · simp [whole, rest]
  · rcases Int.lt_or_gt_of_ne divisor with negative | positive
    · have sign : right.sign = -1 := Int.sign_eq_neg_one_of_neg negative
      by_cases below : left < 0 <;> simp [whole, rest, negative, below, sign, Int.not_le.mpr]
    · have sign : right.sign = 1 := Int.sign_eq_one_of_pos positive
      by_cases below : left < 0 <;> simp [whole, rest, below, sign] <;> omega

private theorem toInt_quotient {left right : Int64} (divisible : Number.Divisible left right) :
    (Number.quotient left right divisible).toInt = left.toInt.tdiv right.toInt := by
  by_cases least : left = Int64.minValue
  · exact Int64.toInt_div_of_ne_right _ _ fun minus => divisible.2 ⟨least, minus⟩
  · exact Int64.toInt_div_of_ne_left _ _ least

/-- Division by hand is floor division, and a floor is refused only if it has no word. -/
theorem floorQuotient?_eq {left right : Int64} (divisor : right ≠ 0) :
    Number.floorQuotient? left right = Number.fit? (left.toInt.fdiv right.toInt) := by
  have divisor' : right.toInt ≠ 0 := fun zero => divisor (Int64.toInt_inj.mp zero)
  rw [Number.floorQuotient?]
  split
  next divisible =>
    have remainder : Number.remainder left right divisible ≠ 0 ↔ left.toInt.tmod right.toInt ≠ 0 := by
      rw [Number.remainder, Ne, ← Int64.toInt_inj, Int64.toInt_mod]
      rfl
    rw [fdiv_of_tdiv divisor', ← toInt_quotient divisible]
    simp only [remainder, Int64.lt_iff_toInt_lt, Int64.toInt_zero]
    split
    · rfl
    · exact (fit?_toInt _).symm
  next indivisible =>
    obtain ⟨rfl, rfl⟩ : left = Int64.minValue ∧ right = -1 :=
      Decidable.byContradiction fun other => indivisible ⟨divisor, other⟩
    decide

end DiceNotation.Proofs.IntegerRange

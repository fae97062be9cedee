import DiceNotation.Proofs.DiceText
import DiceNotation.Proofs.PatternText
import DiceNotation.Proofs.RollRange

/-! Dice that are rolled by their numbers, and by a text that spells these numbers. The text goes the long way, through
a group, a template and an expression, and comes to the same throw and the same total. -/

namespace DiceNotation.Proofs.DirectRolls
open Dice (Draft Spelling Violation)
open DiceNotation.Proofs.Extraction PatternCalls Runs Scanning TokenSequence

variable {sides amount : UInt32} {words : Words} {throw : Throw} {dice : Dice} {violation : Violation}

def spelled (amount sides : UInt32) : String := s!"{amount.toNat}d{sides.toNat}"

section Spelling

def figures (amount sides : UInt32) : Spelling where
  amount := Nat.toDigits 10 amount.toNat
  sides := Nat.toDigits 10 sides.toNat

theorem spelled_eq (amount sides : UInt32) : spelled amount sides = String.ofList (written (figures amount sides)) := by
  rw [← String.toList_inj, String.toList_ofList]
  change (amount.toNat.repr ++ "d" ++ sides.toNat.repr).toList = _
  rw [String.toList_append, String.toList_append, Nat.toList_repr, Nat.toList_repr]
  simp [written, figures, dropCharacters]

theorem figures_numeric (amount sides : UInt32) : Numeric (figures amount sides) where
  amount := Substitution.digits_toDigits _
  sides := Substitution.digits_toDigits _
  lowest := nofun
  highest := nofun

/-- Figures are the numerals of dice that drop none. -/
theorem figures_dice (amount sides : UInt32) : (figures amount sides).dice = Draft.build { sides, amount } := by
  rw [← DiceText.numerals_dice]
  rfl

theorem spelled_ne_empty (amount sides : UInt32) : spelled amount sides ≠ "" := by
  rw [spelled_eq, ← String.ofList_nil, ne_eq, String.ofList_inj]
  simp [written]

theorem normalize_spelled (amount sides : UInt32) : normalize (spelled amount sides) = spelled amount sides := by
  rw [spelled_eq, normalize_written (figures_numeric amount sides)]

theorem ofText_spelled (amount sides : UInt32) : Pattern.ofText (spelled amount sides) = .ok { source := spelled amount sides } :=
  ofText_ok.mpr ⟨by rw [normalize_spelled]; exact spelled_ne_empty amount sides, by rw [normalize_spelled]⟩

def single (dice : Dice) : Extraction := { dice := [dice], template := ({} : Template).pushPlaceholder 0 }

theorem extract_spelled (amount sides : UInt32) :
    ({ source := spelled amount sides } : Pattern).extract = (Draft.build { sides, amount }).map single := by
  rw [Pattern.extract, spelled_eq, String.toList_ofList, split_written (figures_numeric amount sides), ← figures_dice]
  rw [Extraction.ofFragments, List.foldlM_cons, Extraction.add]
  cases (figures amount sides).dice <;> rfl

end Spelling

section Direct

theorem rollDice_refused (refused : Draft.build { sides, amount } = .error violation) :
    (rollDice sides amount words).value = (.error (.invalid violation), words) := by
  rw [rollDice, refused]
  rfl

theorem rollDice_built (built : Draft.build { sides, amount } = .ok dice) :
    (rollDice sides amount words).value = (.ok (dice.roll words).value.1, (dice.roll words).value.2) := by
  rw [rollDice, built, value_bind]
  rfl

end Direct

section Spelled

theorem mapM_single (dice : Dice) (words : Words) :
    ([dice].mapM Dice.roll words).value = ([(dice.roll words).value.1], (dice.roll words).value.2) := by
  rw [List.mapM_cons, value_bind, value_bind]
  rfl

theorem rollText_refused (refused : Draft.build { sides, amount } = .error violation) :
    (rollText (spelled amount sides) words).value = (.error (.invalid violation), words) := by
  have extracts := extract_spelled amount sides
  rw [refused] at extracts
  rw [rollText_made (ofText_spelled amount sides), roll_refused ((ensureCompiled_none rfl).trans (compile_error extracts))]

theorem rollText_built (built : Draft.build { sides, amount } = .ok dice) :
    (rollText (spelled amount sides) words).value =
      (Outcome.ofThrows (single dice).template [(dice.roll words).value.1], (dice.roll words).value.2) := by
  have extracts := extract_spelled amount sides
  rw [built] at extracts
  have one : (single dice).dice = [dice] := rfl
  rw [rollText_made (ofText_spelled amount sides), roll_ready ((ensureCompiled_none rfl).trans (compile_ok extracts))]
  simp only [Pattern.template, Pattern.dice, Pattern.extracted, Option.getD_some, one, mapM_single]

/-- The total of a throw, written and read as an expression, is that total. -/
theorem ofThrows_single (fits : (throw.sum : Int) ≤ Int64.maxValue.toInt) :
    Outcome.ofThrows (single dice).template [throw] = .ok ⟨throw.total, [throw], (single dice).template⟩ := by
  have bound : Substitution.Bound [throw] (single dice).template.pieces := by
    intro index member
    obtain rfl : index = 0 := by simpa [single, Template.pushPlaceholder] using member
    exact Nat.one_pos
  have nonneg : 0 ≤ throw.total.toInt := by
    rw [Substitution.total_of_sum fits]
    exact Int.natCast_nonneg _
  have text : (single dice).template.pieces.flatMap (Substitution.characters [throw]) = Substitution.written throw.total :=
    List.append_nil _
  have rendered := Substitution.render_bound bound
  have lexed : all (String.ofList ((single dice).template.pieces.flatMap (Substitution.characters [throw]))).toList =
      .ok [.number (.int throw.total)] := by
    rw [String.toList_ofList, text]
    exact Substitution.all_written_nonneg nonneg
  have total : Outcome.totalOf (single dice).template [throw] = .ok throw.total :=
    mapError_ok.mp (Substitution.totalOf_lexed rendered lexed)
  rw [Outcome.ofThrows, total]

end Spelled

/-- Rolling dice by their numbers or by the text that spells them takes the same words, is refused alike for want of
sides, and gives the same throw, which is all of the outcome if its total has a word. -/
theorem rollText_direct (sides amount : UInt32) (words : Words) :
    (rollText (spelled amount sides) words).value.2 = (rollDice sides amount words).value.2 ∧
    (sides = 0 →
      (rollText (spelled amount sides) words).value.1 = .error (.invalid (.value .sides "0")) ∧
      (rollDice sides amount words).value.1 = .error (.invalid (.value .sides "0"))) ∧
    (sides ≠ 0 → ∃ throw, (rollDice sides amount words).value.1 = .ok throw ∧
      ((throw.sum : Int) ≤ Int64.maxValue.toInt → ∃ outcome, (rollText (spelled amount sides) words).value.1 = .ok outcome ∧
        outcome.throws = [throw] ∧ outcome.total = throw.total)) := by
  by_cases sideless : sides = 0
  · have refused : Draft.build { sides, amount } = .error (.value .sides "0") := by rw [Draft.build, dif_pos sideless]
    rw [rollText_refused refused, rollDice_refused refused]
    exact ⟨rfl, fun _ => ⟨rfl, rfl⟩, fun sided => absurd sideless sided⟩
  · have drops : ({ sides, amount } : Draft).dropped ≤ amount.toNat := Nat.zero_le _
    have built : Draft.build { sides, amount } = .ok ⟨{ sides, amount }, sideless, drops⟩ := by
      rw [Draft.build, dif_neg sideless, dif_pos drops]
    rw [rollText_built built, rollDice_built built]
    refine ⟨rfl, fun none => absurd none sideless, fun _ => ⟨_, rfl, fun fits => ?_⟩⟩
    rw [ofThrows_single fits]
    exact ⟨_, rfl, rfl, rfl⟩

/-- Three dice, and as many without sides. -/
theorem rollText_direct_dice : spelled 3 6 = "3d6" ∧
    (∃ throw outcome, (rollDice 6 3 (Words.scripted #[] 7)).value.1 = .ok throw ∧
      (rollText "3d6" (Words.scripted #[] 7)).value.1 = .ok outcome ∧ outcome.throws = [throw] ∧ outcome.total = throw.total) ∧
    (rollText "3d0" (Words.scripted #[] 7)).value.1 = (.error (.invalid (.value .sides "0"))) := by
  have text : spelled 3 6 = "3d6" := by decide +kernel
  have sideless : spelled 3 0 = "3d0" := by decide +kernel
  obtain ⟨-, -, alike⟩ := rollText_direct 6 3 (Words.scripted #[] 7)
  obtain ⟨-, refused, -⟩ := rollText_direct 0 3 (Words.scripted #[] 7)
  obtain ⟨throw, thrown, settles⟩ := alike (by decide)
  rw [text] at settles
  rw [sideless] at refused
  have shown : (rollDice 6 3 (Words.scripted #[] 7)).value.1 = .ok ⟨[2, 6, 4], [], "3d6"⟩ := by decide +kernel
  have fits : (throw.sum : Int) ≤ Int64.maxValue.toInt := by
    rw [← Except.ok.inj (shown.symm.trans thrown)]
    decide
  obtain ⟨outcome, settled, throws, total⟩ := settles fits
  exact ⟨text, ⟨throw, outcome, thrown, settled, throws, total⟩, (refused rfl).1⟩

end DiceNotation.Proofs.DirectRolls

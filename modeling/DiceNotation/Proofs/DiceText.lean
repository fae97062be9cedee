import DiceNotation.Proofs.Extraction
import DiceNotation.Proofs.Substitution

/-! Dice as they are written. A text is dice if all of it is one group whose numbers pass every check, and the first
check that fails is the one reported. The name of dice is such a text, of which the same dice are read again. -/

namespace DiceNotation.Proofs.DiceText
open Dice (Draft Field Spelling Violation)
open DiceNotation.Proofs.Extraction Runs Scanning

variable {spelling : Spelling} {dice other : Dice}

section Numbers

structure Numbers where
  sides : Nat
  amount : Nat
  dropLowest : Nat
  dropHighest : Nat
deriving DecidableEq

def numbersOf (draft : Draft) : Numbers where
  sides := draft.sides.toNat
  amount := draft.amount.toNat
  dropLowest := draft.dropLowest.toNat
  dropHighest := draft.dropHighest.toNat

def value (standard : Nat) (digits : List Char) : Nat :=
  if digits = [] then standard else Nat.ofDigitChars 10 digits 0

def dropValue : Option (List Char) → Nat
  | none => 0
  | some digits => value 1 digits

/-- What a spelling says, with the standard numbers where it says nothing. -/
def meant (spelling : Spelling) : Numbers where
  sides := value 20 spelling.sides
  amount := value 1 spelling.amount
  dropLowest := dropValue spelling.lowest
  dropHighest := dropValue spelling.highest

theorem numbersOf_inj (same : numbersOf dice.toDraft = numbersOf other.toDraft) : dice = other := by
  simp only [numbersOf, Numbers.mk.injEq, UInt32.toNat_inj] at same
  obtain ⟨sides, amount, dropLowest, dropHighest⟩ := same
  obtain ⟨⟨_, _, _, _⟩, _, _⟩ := dice
  obtain ⟨⟨_, _, _, _⟩, _, _⟩ := other
  subst sides amount dropLowest dropHighest
  rfl

end Numbers

section Checks

/-- A condition on the numbers of a group, and how the group is refused where it does not hold. -/
structure Check where
  holds : Bool
  violation : Violation
  message : String
deriving DecidableEq

def fits (field : Field) (number : Nat) (digits : List Char) : Check where
  holds := number < UInt32.size
  violation := .value field (String.ofList digits)
  message := "Invalid value for " ++ field.name ++ " ('" ++ String.ofList digits ++ "')"

/-- Sides that are missing are named by a single zero. -/
def sided (sides : Nat) : Check where
  holds := 1 ≤ sides
  violation := .value .sides "0"
  message := "Invalid value for sides ('0')"

def covered (dropped amount : Nat) : Check where
  holds := dropped ≤ amount
  violation := .drops dropped amount
  message := "You can not drop more dice than amount (" ++ toString dropped ++ " dropped out of " ++ toString amount ++ ")"

/-- The checks in the order in which they are made. -/
def checks (spelling : Spelling) : List Check :=
  [fits .sides (meant spelling).sides spelling.sides,
    sided (meant spelling).sides,
    fits .amount (meant spelling).amount spelling.amount,
    fits .dropLowest (meant spelling).dropLowest (spelling.lowest.getD []),
    fits .dropHighest (meant spelling).dropHighest (spelling.highest.getD []),
    covered ((meant spelling).dropLowest + (meant spelling).dropHighest) (meant spelling).amount]

def firstFailure (checks : List Check) : Option Check :=
  checks.find? fun check => !check.holds

theorem message_of_mem : ∀ check ∈ checks spelling, (Error.invalid check.violation).message = check.message := by
  simp only [checks, List.forall_mem_cons]
  exact ⟨rfl, rfl, rfl, rfl, rfl, rfl, by simp⟩

/-- How a number is answered that has to pass a check: with its word, or with the check's violation. -/
structure Answers (check : Check) (number : Nat) (answer : Except Violation UInt32) : Prop where
  accepted : check.holds = true → ∃ word, answer = .ok word ∧ word.toNat = number
  refused : check.holds = false → answer = .error check.violation

theorem number_answers (field : Field) (standard : UInt32) (digits : List Char) :
    Answers (fits field (value standard.toNat digits) digits) (value standard.toNat digits)
      (Spelling.number field standard digits) := by
  by_cases omitted : digits = []
  · simp only [Spelling.number, value, if_pos omitted]
    refine ⟨fun _ => ⟨standard, rfl, rfl⟩, fun large => ?_⟩
    exact absurd standard.toNat_lt (of_decide_eq_false large)
  · simp only [Spelling.number, value, if_neg omitted]
    constructor
    · intro small
      have small : Nat.ofDigitChars 10 digits 0 < UInt32.size := of_decide_eq_true small
      exact ⟨_, if_pos small, UInt32.toNat_ofNat_of_lt small⟩
    · intro large
      exact if_neg (of_decide_eq_false large)

theorem dropCount_answers (field : Field) (drop : Option (List Char)) :
    Answers (fits field (dropValue drop) (drop.getD [])) (dropValue drop) (Spelling.dropCount field drop) := by
  cases drop with
  | none => exact ⟨fun _ => ⟨0, rfl, rfl⟩, nofun⟩
  | some digits => exact number_answers field Spelling.standardDrop digits

/-- An answer that follows some checks: the first that fails refuses it, and if none does it is dice of these numbers. -/
structure Decides (checks : List Check) (numbers : Numbers) (answer : Except Violation Dice) : Prop where
  refused : ∀ check, firstFailure checks = some check → answer = .error check.violation
  accepted : firstFailure checks = none → ∃ dice, answer = .ok dice ∧ numbersOf dice.toDraft = numbers

theorem Decides.fail {check : Check} {rest : List Check} {numbers : Numbers} {answer : Except Violation Dice}
    (fails : check.holds = false) (refused : answer = .error check.violation) : Decides (check :: rest) numbers answer := by
  have first : firstFailure (check :: rest) = some check := List.find?_cons_of_pos (by simp [fails])
  constructor
  · intro found same
    rw [first] at same
    rw [refused, Option.some.inj same]
  · intro none
    rw [first] at none
    contradiction

theorem Decides.pass {check : Check} {rest : List Check} {numbers : Numbers} {answer : Except Violation Dice}
    (holds : check.holds = true) (decides : Decides rest numbers answer) : Decides (check :: rest) numbers answer := by
  have skipped : firstFailure (check :: rest) = firstFailure rest := List.find?_cons_of_neg (by simp [holds])
  constructor
  · rw [skipped]
    exact decides.refused
  · rw [skipped]
    exact decides.accepted

/-- A number is read and checked, and what follows goes on from its word. -/
theorem Decides.bind {check : Check} {rest : List Check} {numbers : Numbers} {number : Nat}
    {first : Except Violation UInt32} {next : UInt32 → Except Violation Dice} (answers : Answers check number first)
    (decides : ∀ word, word.toNat = number → Decides rest numbers (next word)) :
    Decides (check :: rest) numbers (first >>= next) := by
  cases outcome : check.holds with
  | false =>
    apply Decides.fail outcome
    rw [answers.refused outcome]
    rfl
  | true =>
    obtain ⟨word, answer, same⟩ := answers.accepted outcome
    apply Decides.pass outcome
    rw [answer]
    exact decides word same

theorem sided_holds {sides : UInt32} : (sided sides.toNat).holds = true ↔ sides ≠ 0 := by
  simp only [sided, decide_eq_true_eq, Nat.one_le_iff_ne_zero, ne_eq, ← UInt32.toNat_inj, UInt32.toNat_zero]

theorem build_decided {draft : Draft} {numbers : Numbers} (sides : draft.sides ≠ 0) (same : numbersOf draft = numbers) :
    Decides [covered (numbers.dropLowest + numbers.dropHighest) numbers.amount] numbers draft.build := by
  subst same
  by_cases drops : draft.dropped ≤ draft.amount.toNat
  · apply Decides.pass (decide_eq_true drops)
    refine ⟨nofun, fun _ => ⟨⟨draft, sides, drops⟩, ?_, rfl⟩⟩
    rw [Draft.build, dif_neg sides, dif_pos drops]
  · apply Decides.fail (decide_eq_false drops)
    rw [Draft.build, dif_neg sides, dif_neg drops]
    rfl

/-- The numbers are checked one by one as they are read. -/
theorem dice_decided (spelling : Spelling) : Decides (checks spelling) (meant spelling) spelling.dice := by
  rw [Spelling.dice, checks]
  apply Decides.bind (number_answers .sides Spelling.standardSides spelling.sides)
  intro sides (sidesSame : sides.toNat = (meant spelling).sides)
  rw [← sidesSame]
  by_cases sideless : sides = 0
  · apply Decides.fail (Bool.eq_false_iff.mpr fun holds => sided_holds.mp holds sideless)
    rw [if_pos sideless]
    rfl
  · apply Decides.pass (sided_holds.mpr sideless)
    rw [if_neg sideless]
    apply Decides.bind (number_answers .amount Spelling.standardAmount spelling.amount)
    intro amount (amountSame : amount.toNat = (meant spelling).amount)
    apply Decides.bind (dropCount_answers .dropLowest spelling.lowest)
    intro dropLowest (lowestSame : dropLowest.toNat = (meant spelling).dropLowest)
    apply Decides.bind (dropCount_answers .dropHighest spelling.highest)
    intro dropHighest (highestSame : dropHighest.toNat = (meant spelling).dropHighest)
    apply build_decided sideless
    simp only [numbersOf, sidesSame, amountSame, lowestSame, highestSame]

theorem meant_of_ok (judged : spelling.dice = .ok dice) : numbersOf dice.toDraft = meant spelling := by
  have decided := dice_decided spelling
  cases outcome : firstFailure (checks spelling) with
  | some check =>
    rw [decided.refused check outcome] at judged
    contradiction
  | none =>
    obtain ⟨found, answer, same⟩ := decided.accepted outcome
    rw [← Except.ok.inj (answer.symm.trans judged)]
    exact same

end Checks

section Texts

/-- The texts that are read as one group to their end are those in which a group is written. -/
theorem written_iff {text : List Char} :
    Numeric spelling ∧ written spelling = text ↔ Spelling.read? text = some (spelling, []) := by
  constructor
  · intro ⟨numeric, same⟩
    rw [← same]
    exact read?_written numeric
  · intro found
    obtain ⟨whole, numeric⟩ := read?_reads found
    rw [List.append_nil] at whole
    exact ⟨numeric, whole⟩

theorem ofText_malformed {text : String} (none : ∀ spelling, Spelling.read? (normalize text).toList ≠ some (spelling, [])) :
    Dice.ofText text = .error (.malformed (normalize text)) := by
  rw [Dice.ofText]
  split
  next spelling found => exact absurd found (none spelling)
  next => rfl

theorem ofText_ok {text : String} (read : Dice.ofText text = .ok dice) :
    ∃ spelling, Numeric spelling ∧ written spelling = (normalize text).toList ∧ spelling.dice = .ok dice := by
  by_cases found : ∃ spelling, Spelling.read? (normalize text).toList = some (spelling, [])
  · obtain ⟨spelling, found⟩ := found
    obtain ⟨numeric, same⟩ := written_iff.mpr found
    rw [ofText_group found] at read
    exact ⟨spelling, numeric, same, mapError_ok.mp read⟩
  · rw [ofText_malformed fun spelling same => found ⟨spelling, same⟩] at read
    contradiction

/-- A text that is not one group is refused as a whole. A group is settled by its checks: the first that fails refuses
it, and if none does the text is dice of exactly the numbers that it says. -/
theorem ofText_decided (text : String) :
    ((∀ spelling, Numeric spelling → written spelling ≠ (normalize text).toList) →
      Dice.ofText text = .error (.malformed (normalize text))) ∧
    ∀ spelling, Numeric spelling → written spelling = (normalize text).toList →
      (∀ check, firstFailure (checks spelling) = some check →
        Dice.ofText text = .error (.invalid check.violation) ∧ (Error.invalid check.violation).message = check.message) ∧
      (firstFailure (checks spelling) = none →
        ∃ dice, Dice.ofText text = .ok dice ∧ numbersOf dice.toDraft = meant spelling) := by
  constructor
  · intro other
    apply ofText_malformed
    intro spelling found
    obtain ⟨numeric, same⟩ := written_iff.mpr found
    exact other spelling numeric same
  · intro spelling numeric same
    rw [ofText_group (written_iff.mp ⟨numeric, same⟩)]
    have decided := dice_decided spelling
    constructor
    · intro check failure
      rw [decided.refused check failure]
      exact ⟨rfl, message_of_mem check (List.mem_of_find?_eq_some failure)⟩
    · intro none
      obtain ⟨dice, answer, same⟩ := decided.accepted none
      rw [answer]
      exact ⟨dice, rfl, same⟩

/-- A group with leading zeros and omitted digits, one that fails two checks, and a text in which a group ends too
soon. -/
theorem ofText_decided_samples :
    (∃ dice, Dice.ofText " 007 D 4 L h02" = .ok dice ∧ numbersOf dice.toDraft = ⟨4, 7, 1, 2⟩) ∧
    (Dice.ofText "4294967296d6l3h04294967296" = .error (.invalid (.value .amount "4294967296")) ∧
      (Error.invalid (.value .amount "4294967296")).message = "Invalid value for amount ('4294967296')") ∧
    Dice.ofText "2d6h1l1" = .error (.malformed "2d6h1l1") := by
  refine ⟨?_, ?_, ?_⟩
  · have found : Spelling.read? (normalize " 007 D 4 L h02").toList =
        some (⟨['0', '0', '7'], ['4'], some [], some ['0', '2']⟩, []) := by
      decide +kernel
    obtain ⟨numeric, same⟩ := written_iff.mpr found
    exact ((ofText_decided " 007 D 4 L h02").2 _ numeric same).2 (by decide +kernel)
  · have found : Spelling.read? (normalize "4294967296d6l3h04294967296").toList =
        some (⟨"4294967296".toList, ['6'], some ['3'], some "04294967296".toList⟩, []) := by
      decide +kernel
    obtain ⟨numeric, same⟩ := written_iff.mpr found
    exact ((ofText_decided "4294967296d6l3h04294967296").2 _ numeric same).1
      (fits .amount 4294967296 "4294967296".toList) (by decide +kernel)
  · have normal : normalize "2d6h1l1" = "2d6h1l1" := by decide +kernel
    have ends : Spelling.read? "2d6h1l1".toList = some (⟨['2'], ['6'], none, some ['1']⟩, ['l', '1']) := by decide +kernel
    have malformed := (ofText_decided "2d6h1l1").1
    rw [normal] at malformed
    apply malformed
    intro spelling numeric same
    have whole := written_iff.mp ⟨numeric, same⟩
    rw [ends] at whole
    cases whole

/-- However many zeros are written for the sides, the refusal names a single one. -/
theorem zeros_named_once :
    normalize "d00" = "d00" ∧ Numeric ⟨[], ['0', '0'], none, none⟩ ∧ written ⟨[], ['0', '0'], none, none⟩ = "d00".toList ∧
    Dice.ofText "d00" = .error (.invalid (.value .sides "0")) ∧
    (Error.invalid (.value .sides "0")).message = "Invalid value for sides ('0')" ∧
    ¬ Dice.ofText "d00" = .error (.invalid (.value .sides "00")) := by
  have found : Spelling.read? "d00".toList = some (⟨[], ['0', '0'], none, none⟩, []) := by decide +kernel
  obtain ⟨numeric, same⟩ := written_iff.mpr found
  exact ⟨by decide +kernel, numeric, same, by decide +kernel, by decide +kernel, by decide +kernel⟩

end Texts

section Names

def numeral (count : UInt32) : List Char := Nat.toDigits 10 count.toNat

def dropNumeral (count : UInt32) : Option (List Char) :=
  if count = 0 then none else some (numeral count)

def numerals (draft : Draft) : Spelling where
  amount := numeral draft.amount
  sides := numeral draft.sides
  lowest := dropNumeral draft.dropLowest
  highest := dropNumeral draft.dropHighest

theorem numeral_digits (count : UInt32) : Digits (numeral count) := Substitution.digits_toDigits _

theorem dropNumeral_digits (count : UInt32) : ∀ digits ∈ dropNumeral count, Digits digits := by
  intro digits member
  simp only [dropNumeral, Option.mem_def, Option.ite_none_left_eq_some, Option.some.injEq] at member
  rw [← member.2]
  exact numeral_digits count

theorem numerals_numeric (draft : Draft) : Numeric (numerals draft) where
  amount := numeral_digits _
  sides := numeral_digits _
  lowest := dropNumeral_digits _
  highest := dropNumeral_digits _

theorem toList_dropText (mark : Char) (count : UInt32) :
    (Dice.dropText (String.singleton mark) count).toList = dropCharacters mark (dropNumeral count) := by
  by_cases zero : count = 0
  · simp only [Dice.dropText, dropNumeral, if_pos zero, dropCharacters, String.toList_empty]
  · simp only [Dice.dropText, dropNumeral, if_neg zero, dropCharacters, String.toList_append, String.toList_singleton]
    exact congrArg (mark :: ·) Nat.toList_repr

/-- The name of dice is a group of its own, with all numbers in figures but the drops of none. -/
theorem name_eq (dice : Dice) : dice.name = String.ofList (written (numerals dice.toDraft)) := by
  have lowest : (Dice.dropText "l" dice.dropLowest).toList = _ := toList_dropText 'l' dice.dropLowest
  have highest : (Dice.dropText "h" dice.dropHighest).toList = _ := toList_dropText 'h' dice.dropHighest
  have name : dice.name = dice.amount.toNat.repr ++ "d" ++ dice.sides.toNat.repr ++ Dice.dropText "l" dice.dropLowest ++
      Dice.dropText "h" dice.dropHighest := rfl
  rw [← String.toList_inj, String.toList_ofList, name]
  simp only [String.toList_append, Nat.toList_repr, lowest, highest, written, numerals, numeral, List.append_assoc]
  rfl

theorem number_numeral (field : Field) (standard count : UInt32) :
    Spelling.number field standard (numeral count) = .ok count := by
  rw [Spelling.number, numeral, if_neg Nat.toDigits_ne_nil, Nat.ofDigitChars_ten_toDigits]
  dsimp only
  rw [if_pos count.toNat_lt, UInt32.ofNat_toNat]

theorem dropCount_numeral (field : Field) (count : UInt32) : Spelling.dropCount field (dropNumeral count) = .ok count := by
  by_cases zero : count = 0
  · rw [dropNumeral, if_pos zero, zero]
    rfl
  · rw [dropNumeral, if_neg zero]
    exact number_numeral field Spelling.standardDrop count

/-- Numerals are judged as the numbers that they stand for. -/
theorem numerals_dice (draft : Draft) : (numerals draft).dice = draft.build := by
  simp only [Spelling.dice, numerals, number_numeral, dropCount_numeral]
  by_cases sideless : draft.sides = 0
  · rw [Draft.build, dif_pos sideless, sideless]
    rfl
  · change (if draft.sides = 0 then _ else _) = _
    rw [if_neg sideless]
    rfl

/-- The name of dice is read as the same dice. -/
theorem ofText_name (dice : Dice) : Dice.ofText dice.name = .ok dice := by
  have stands : dice.toDraft.build = .ok dice := by
    rw [Draft.build, dif_neg dice.sides_ne_zero, dif_pos dice.dropped_le_amount]
  rw [name_eq, ofText_written (numerals_numeric dice.toDraft), numerals_dice, stands]
  rfl

theorem name_inj : dice.name = other.name ↔ dice = other := by
  constructor
  · intro same
    have read := ofText_name dice
    rw [same, ofText_name other] at read
    exact (Except.ok.inj read).symm
  · intro same
    rw [same]

/-- A name stands for its dice: they are read from it, other dice have another name, and a throw that carries it was
thrown with them. -/
theorem name_identifies (dice other : Dice) :
    Dice.ofText dice.name = .ok dice ∧
    (dice.name = other.name ↔ dice.sides = other.sides ∧ dice.amount = other.amount ∧
      dice.dropLowest = other.dropLowest ∧ dice.dropHighest = other.dropHighest) ∧
    (∀ words, Dice.ofText (dice.roll words).value.1.name = .ok dice) ∧
    ∀ words words', (dice.roll words).value.1.name = (other.roll words').value.1.name ↔ dice = other := by
  refine ⟨ofText_name dice, ?_, fun words => ofText_name dice, fun words words' => name_inj⟩
  rw [name_inj]
  constructor
  · intro same
    simp only [same, and_self]
  · intro ⟨sides, amount, dropLowest, dropHighest⟩
    apply numbersOf_inj
    simp only [numbersOf, sides, amount, dropLowest, dropHighest]

end Names

end DiceNotation.Proofs.DiceText

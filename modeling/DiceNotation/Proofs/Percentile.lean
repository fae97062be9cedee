import DiceNotation.Proofs.DiceText
import DiceNotation.Proofs.PatternText

/-! Percent signs behind a letter d. The normal form spells the sign as 100 before any group is read, so digits that
follow the sign go on with this number: the sides are 100 exactly where no digit follows. -/

namespace DiceNotation.Proofs.Percentile
open Dice (Spelling)
open DiceNotation.Proofs.DiceText DiceNotation.Proofs.Extraction PatternCalls Runs Scanning

variable {text before after : List Char} {spelling : Spelling} {dice : Dice} {percent : Bool}

section Expanding

theorem expandPercent_cons {c : Char} (plain : c ≠ 'd') : expandPercent (c :: text) = c :: expandPercent text := by
  rw [expandPercent]
  intro rest same
  exact absurd same plain

/-- Nothing reaches across a letter d: a sign is spelled out with the letter before it. -/
theorem expandPercent_letter :
    expandPercent (before ++ 'd' :: after) = expandPercent before ++ expandPercent ('d' :: after) := by
  fun_induction expandPercent before with
  | case1 => rfl
  | case2 rest ih => simp only [List.cons_append, expandPercent, ih]
  | case3 c rest apart ih =>
    rw [List.cons_append, expandPercent, ih, List.cons_append]
    intro others letter same
    cases rest with
    | nil => cases same
    | cons next rest => exact apart rest letter (congrArg (· :: rest) (List.cons.inj same).1)

theorem expandPercent_plain (plain : 'd' ∉ text) : expandPercent text = text := by
  induction text with
  | nil => rfl
  | cons c rest ih =>
    simp only [List.mem_cons, not_or] at plain
    rw [expandPercent_cons (Ne.symm plain.1), ih plain.2]

theorem count_expandPercent (text : List Char) : (expandPercent text).count 'd' = text.count 'd' := by
  fun_induction expandPercent text with
  | case1 => rfl
  | case2 rest ih => simp [ih]
  | case3 c rest _ ih => simp only [List.count_cons, ih]

theorem takeWhile_expandPercent (text : List Char) :
    (expandPercent text).takeWhile Char.isDigit = text.takeWhile Char.isDigit := by
  fun_induction expandPercent text with
  | case1 => rfl
  | case2 => rfl
  | case3 c rest _ ih => simp only [List.takeWhile_cons, ih]

/-- The sides of the group that a sign stands in begin with 100 and go on with the digits that follow. -/
theorem sides_of_percent (same : text = before ++ 'd' :: '%' :: after) :
    ∃ spelling, (groups (Fragment.split (expandPercent text)))[before.count 'd']? = some spelling ∧
      spelling.sides = '1' :: '0' :: '0' :: after.takeWhile Char.isDigit := by
  have expanded : expandPercent text = expandPercent before ++ 'd' :: '1' :: '0' :: '0' :: expandPercent after := by
    rw [same, expandPercent_letter, expandPercent]
  obtain ⟨spelling, found, sides⟩ := group_of_letter expanded
  rw [count_expandPercent] at found
  refine ⟨spelling, found, ?_⟩
  rw [sides, ← takeWhile_expandPercent after]
  rfl

end Expanding

section Sides

structure Hundreds (dice : Dice) (digits : List Char) : Prop where
  sides : dice.sides.toNat = Nat.ofDigitChars 10 ('1' :: '0' :: '0' :: digits) 0
  plain : dice.sides = 100 ↔ digits = []

theorem ofDigitChars_hundred {digits : List Char} : Nat.ofDigitChars 10 ('1' :: '0' :: '0' :: digits) 0 = 100 ↔ digits = [] := by
  have hundred : Nat.ofDigitChars 10 ('1' :: '0' :: '0' :: digits) 0 = Nat.ofDigitChars 10 digits 100 := by
    simp only [Nat.ofDigitChars_cons]
    rfl
  rw [hundred, Nat.ofDigitChars_eq_ofDigitChars_zero]
  constructor
  · intro exact
    cases digits with
    | nil => rfl
    | cons c rest =>
      have some : 10 ^ 1 ≤ 10 ^ (c :: rest).length := Nat.pow_le_pow_right (by decide) (by simp)
      omega
  · rintro rfl
    rfl

theorem hundreds_of_ok {digits : List Char} (judged : spelling.dice = .ok dice)
    (sides : spelling.sides = '1' :: '0' :: '0' :: digits) : Hundreds dice digits := by
  have number : dice.sides.toNat = Nat.ofDigitChars 10 ('1' :: '0' :: '0' :: digits) 0 := by
    have same : dice.sides.toNat = value 20 spelling.sides := congrArg Numbers.sides (meant_of_ok judged)
    rw [same, sides, value, if_neg (List.cons_ne_nil _ _)]
  have hundred : dice.sides = 100 ↔ dice.sides.toNat = 100 := UInt32.toNat_inj.symm
  exact ⟨number, by rw [hundred, number, ofDigitChars_hundred]⟩

end Sides

section Texts

/-- A group before its sign is spelled out. The digits of its sides follow the sign where there is one. -/
def shorthand (percent : Bool) (spelling : Spelling) : List Char :=
  spelling.amount ++ 'd' :: ((if percent then ['%'] else []) ++ (spelling.sides ++
    (dropCharacters 'l' spelling.lowest ++ dropCharacters 'h' spelling.highest)))

private theorem single_letter (numeric : Numeric spelling) (normal : expandPercent text = written spelling) :
    ∃ before after, text = before ++ 'd' :: after ∧ 'd' ∉ before ∧ 'd' ∉ after := by
  have single := count_written numeric
  rw [← normal, count_expandPercent] at single
  have member : 'd' ∈ text := List.count_pos_iff.mp (by omega)
  obtain ⟨before, after, same, first⟩ := List.eq_append_cons_of_mem member
  rw [same, List.count_append, List.count_cons_self, List.count_eq_zero.mpr first] at single
  exact ⟨before, after, same, first, List.count_eq_zero.mp (by omega)⟩

/-- What a text was whose normal form is a group: this group, or one with a sign in the place of the 100. -/
theorem shorthand_of_written (numeric : Numeric spelling) (normal : expandPercent text = written spelling) :
    shorthand false spelling = text ∨
    ∃ digits, spelling.sides = '1' :: '0' :: '0' :: digits ∧ shorthand true { spelling with sides := digits } = text := by
  obtain ⟨before, after, same, first, last⟩ := single_letter numeric normal
  have expanded : expandPercent text = before ++ expandPercent ('d' :: after) := by
    rw [same, expandPercent_letter, expandPercent_plain first]
  by_cases sign : ∃ rest, after = '%' :: rest
  · right
    obtain ⟨rest, rfl⟩ := sign
    obtain ⟨found, here, sides⟩ := sides_of_percent same
    rw [List.count_eq_zero.mpr first, normal, split_written numeric] at here
    obtain rfl : spelling = found := by simpa [groups] using here
    have plain : expandPercent rest = rest := expandPercent_plain fun member => last (List.mem_cons_of_mem _ member)
    rw [normal, expandPercent, plain, written] at expanded
    obtain ⟨amount, behind⟩ := first_letter (letter_not_mem numeric.amount) first expanded
    rw [sides] at behind
    have drops : rest.takeWhile Char.isDigit ++
        (dropCharacters 'l' spelling.lowest ++ dropCharacters 'h' spelling.highest) = rest := by
      simpa only [List.cons_append, List.cons.injEq, true_and] using behind
    refine ⟨_, sides, ?_⟩
    rw [shorthand, drops, amount, same]
    rfl
  · left
    have unsigned : expandPercent ('d' :: after) = 'd' :: after := by
      rw [expandPercent, expandPercent_plain last]
      intro rest _ signed
      exact sign ⟨rest, signed⟩
    rw [unsigned, ← same, normal] at expanded
    exact expanded

theorem numeric_hundred {digits : List Char} (numeric : Numeric spelling) (sides : spelling.sides = '1' :: '0' :: '0' :: digits) :
    Numeric { spelling with sides := digits } where
  amount := numeric.amount
  sides c member := numeric.sides c (by simp [sides, member])
  lowest := numeric.lowest
  highest := numeric.highest

/-- A text that is dice is a group that may have a sign, with digits behind the sign or not. -/
theorem ofText_shorthand {text : String} (read : Dice.ofText text = .ok dice) :
    ∃ percent spelling, Numeric spelling ∧ shorthand percent spelling = squeeze text.toList ∧
      (percent = true → Hundreds dice spelling.sides) := by
  obtain ⟨spelling, numeric, same, judged⟩ := ofText_ok read
  rw [normalize, String.toList_ofList] at same
  obtain unsigned | ⟨digits, sides, signed⟩ := shorthand_of_written numeric same.symm
  · exact ⟨false, spelling, numeric, unsigned, fun sign => absurd sign Bool.false_ne_true⟩
  · exact ⟨true, _, numeric_hundred numeric sides, signed, fun _ => hundreds_of_ok judged sides⟩

/-- In a pattern the group of each letter d is judged by itself. -/
theorem compiled_letter {pattern : Pattern} {index : Nat} (compiles : pattern.compile.value.1 = .ok ())
    (group : (groups (Fragment.split pattern.source.toList))[index]? = some spelling) :
    ∃ dice, pattern.compile.value.2.dice[index]? = some dice ∧ spelling.dice = .ok dice := by
  cases extracts : pattern.extract with
  | error violation =>
    rw [compile_error extracts] at compiles
    contradiction
  | ok extraction =>
    have judged := (ofFragments_extracted extracts).dice
    obtain ⟨inside, same⟩ := List.getElem?_eq_some_iff.mp group
    have among : index < extraction.dice.length := judged.length_eq ▸ inside
    rw [compile_ok extracts]
    refine ⟨extraction.dice[index], List.getElem?_eq_getElem among, ?_⟩
    rw [← same]
    exact judged.get inside among

/-- A sign for the sides means 100 if no digit follows it. Digits that follow are taken as more digits of the one number. -/
theorem percent_hundred (text : String) :
    (∀ dice, Dice.ofText text = .ok dice →
      ∃ percent spelling, Numeric spelling ∧ shorthand percent spelling = squeeze text.toList ∧
        (percent = true → Hundreds dice spelling.sides)) ∧
    ∀ pattern, Pattern.ofText text = .ok pattern → pattern.compile.value.1 = .ok () →
      ∀ before after, squeeze text.toList = before ++ 'd' :: '%' :: after →
        ∃ dice, pattern.compile.value.2.dice[before.count 'd']? = some dice ∧ Hundreds dice (after.takeWhile Char.isDigit) := by
  refine ⟨fun dice => ofText_shorthand, ?_⟩
  intro pattern made compiles before after same
  obtain ⟨-, rfl⟩ := PatternCalls.ofText_ok.mp made
  obtain ⟨spelling, group, sides⟩ := sides_of_percent same
  have source : (normalize text).toList = expandPercent (squeeze text.toList) := by rw [normalize, String.toList_ofList]
  rw [← source] at group
  obtain ⟨dice, found, judged⟩ := compiled_letter compiles group
  exact ⟨dice, found, hundreds_of_ok judged sides⟩

/-- A sign before a drop, and two in a pattern, of which one has digits behind it. -/
theorem percent_hundred_sample :
    (∃ dice, Dice.ofText "3 D % L1" = .ok dice ∧
      ∃ percent spelling, Numeric spelling ∧ shorthand percent spelling = squeeze "3 D % L1".toList ∧
        (percent = true → Hundreds dice spelling.sides)) ∧
    ∃ pattern, Pattern.ofText "d6 + 2D%h * d%05" = .ok pattern ∧ pattern.compile.value.1 = .ok () ∧
      (∃ dice, pattern.compile.value.2.dice[1]? = some dice ∧ dice.sides = 100) ∧
      ∃ dice, pattern.compile.value.2.dice[2]? = some dice ∧ dice.sides.toNat = 10005 := by
  constructor
  · obtain ⟨dice, read⟩ := exists_of_isOk (Dice.ofText "3 D % L1") (by decide +kernel)
    exact ⟨dice, read, (percent_hundred "3 D % L1").1 dice read⟩
  · have made : Pattern.ofText "d6 + 2D%h * d%05" = .ok { source := normalize "d6 + 2D%h * d%05" } :=
      PatternCalls.ofText_ok.mpr ⟨by decide +kernel, rfl⟩
    have compiles : (Pattern.compile { source := normalize "d6 + 2D%h * d%05" }).value.1 = .ok () := by decide +kernel
    have signs := (percent_hundred "d6 + 2D%h * d%05").2 _ made compiles
    refine ⟨_, made, compiles, ?_, ?_⟩
    · obtain ⟨dice, found, hundreds⟩ := signs "d6+2".toList "h*d%05".toList (by decide +kernel)
      exact ⟨dice, found, hundreds.plain.mpr (by decide)⟩
    · obtain ⟨dice, found, hundreds⟩ := signs "d6+2d%h*".toList "05".toList (by decide +kernel)
      exact ⟨dice, found, hundreds.sides⟩

/-- A digit behind the sign makes another number of it, in dice and in patterns, though a sign stands for the sides
alone. -/
theorem percent_joined :
    (∃ dice, Dice.ofText "d%5" = .ok dice ∧ dice.sides = 1005) ∧
    (¬ ∃ percent spelling, Numeric spelling ∧ (percent = true → spelling.sides = []) ∧
      shorthand percent spelling = squeeze "d%5".toList) ∧
    ∃ pattern, Pattern.ofText "d%5" = .ok pattern ∧ pattern.compile.value.1 = .ok () ∧
      pattern.compile.value.2.dice.map (·.sides) = [1005] := by
  refine ⟨⟨⟨⟨1005, 1, 0, 0⟩, by decide, by decide⟩, by decide +kernel, rfl⟩, ?_, ?_⟩
  · have squeezed : squeeze "d%5".toList = ['d', '%', '5'] := by decide +kernel
    rw [squeezed]
    rintro ⟨percent, spelling, numeric, alone, same⟩
    cases percent with
    | false =>
      have whole : Spelling.read? ['d', '%', '5'] = some (spelling, []) := written_iff.mp ⟨numeric, same⟩
      have ends : Spelling.read? ['d', '%', '5'] = some (⟨[], [], none, none⟩, ['%', '5']) := by decide +kernel
      rw [ends] at whole
      cases whole
    | true =>
      rw [shorthand, alone rfl] at same
      have behind := (first_letter (letter_not_mem numeric.amount) List.not_mem_nil same).2
      cases lowest : spelling.lowest <;> cases highest : spelling.highest <;>
        simp [lowest, highest, dropCharacters] at behind
  · exact ⟨{ source := normalize "d%5" }, PatternCalls.ofText_ok.mpr ⟨by decide +kernel, rfl⟩, by decide +kernel,
      by decide +kernel⟩

end Texts

end DiceNotation.Proofs.Percentile

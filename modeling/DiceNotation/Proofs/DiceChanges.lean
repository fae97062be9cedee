import DiceNotation.Proofs.Extraction

/-! How dice are made and changed. All ways of making dice end in the check of a draft, and so does every change: the
draft that is wanted is proper and is taken as it is, or it is refused and the dice stay as they were. -/

namespace DiceNotation.Proofs.DiceChanges
open Dice (Draft Field Violation Spelling)
open DiceNotation.Proofs.Extraction PatternCalls Runs

variable {draft : Draft} {dice : Dice} {changes : List (Field × UInt32)}

/-- There are sides to show, and no more dice are dropped than thrown. -/
structure Proper (draft : Draft) : Prop where
  sides : 1 ≤ draft.sides.toNat
  drops : draft.dropLowest.toNat + draft.dropHighest.toNat ≤ draft.amount.toNat

/-- What is said of a draft that is not proper. Without sides nothing is said of its drops. -/
def complaint (draft : Draft) : Violation :=
  if draft.sides = 0 then .value .sides "0"
  else .drops (draft.dropLowest.toNat + draft.dropHighest.toNat) draft.amount.toNat

private theorem sides_pos_iff {sides : UInt32} : 1 ≤ sides.toNat ↔ sides ≠ 0 := by
  rw [Nat.one_le_iff_ne_zero, ne_eq, ← UInt32.toNat_zero, UInt32.toNat_inj]

theorem proper_iff : Proper draft ↔ draft.sides ≠ 0 ∧ draft.dropped ≤ draft.amount.toNat :=
  ⟨fun proper => ⟨sides_pos_iff.mp proper.sides, proper.drops⟩, fun ⟨sides, drops⟩ => ⟨sides_pos_iff.mpr sides, drops⟩⟩

theorem build_proper (proper : Proper draft) : ∃ dice, draft.build = .ok dice ∧ dice.toDraft = draft := by
  obtain ⟨sides, drops⟩ := proper_iff.mp proper
  exact ⟨⟨draft, sides, drops⟩, by rw [Draft.build, dif_neg sides, dif_pos drops], rfl⟩

theorem build_improper (improper : ¬ Proper draft) : draft.build = .error (complaint draft) := by
  rw [Draft.build, complaint]
  split
  next => rfl
  next sides =>
    rw [dif_neg fun drops => improper (proper_iff.mpr ⟨sides, drops⟩)]
    rfl

theorem proper_of_build (built : draft.build = .ok dice) : Proper draft ∧ dice.toDraft = draft := by
  by_cases proper : Proper draft
  · obtain ⟨found, built', same⟩ := build_proper proper
    obtain rfl : found = dice := Except.ok.inj (built'.symm.trans built)
    exact ⟨proper, same⟩
  · rw [build_improper proper] at built
    contradiction

theorem amend_proper (proper : Proper (dice.setAll changes)) :
    ∃ amended : Dice, dice.amend changes = (.ok (), amended) ∧ amended.toDraft = dice.setAll changes := by
  obtain ⟨amended, built, same⟩ := build_proper proper
  exact ⟨amended, by rw [Dice.amend, built], same⟩

theorem amend_improper (improper : ¬ Proper (dice.setAll changes)) :
    dice.amend changes = (.error (complaint (dice.setAll changes)), dice) := by
  rw [Dice.amend, build_improper improper]

section Making

def Checked (dice : Dice) : Prop := ∃ draft : Draft, draft.build = .ok dice

theorem spelled_checked {spelling : Spelling} (judged : spelling.dice = .ok dice) : Checked dice := by
  rw [Spelling.dice] at judged
  obtain ⟨sides, -, judged⟩ := bind_ok.mp judged
  split at judged
  · contradiction
  · obtain ⟨amount, -, judged⟩ := bind_ok.mp judged
    obtain ⟨dropLowest, -, judged⟩ := bind_ok.mp judged
    obtain ⟨dropHighest, -, judged⟩ := bind_ok.mp judged
    exact ⟨_, judged⟩

theorem ofText_checked {text : String} (read : Dice.ofText text = .ok dice) : Checked dice := by
  rw [Dice.ofText] at read
  split at read
  · split at read
    next spelling _ found judged =>
      obtain rfl := Except.ok.inj read
      exact spelled_checked judged
    · cases read
  · cases read

theorem compiled_checked {pattern : Pattern} (compiles : pattern.compile.value.1 = .ok ())
    (member : dice ∈ pattern.compile.value.2.dice) : Checked dice := by
  obtain ⟨-, compiled⟩ := compiled_of_ok compiles
  have checked := compiled.dice.flip.imp fun dice group read => And.intro (ofText_checked read) read
  exact ((List.forall₂_and_left _ _).mp checked).1 dice member

end Making

/-- All that dice can come from: a draft that is built, a text, a pattern that is compiled, or other dice that are
changed, be it one number at a time or several at once. A change that is refused gives the same dice again. -/
inductive Made : Dice → Prop where
  | built {sides : UInt32} {changes : List (Field × UInt32)} {dice : Dice}
      (built : (Draft.setAll { sides } changes).build = .ok dice) : Made dice
  | read {text : String} {dice : Dice} (read : Dice.ofText text = .ok dice) : Made dice
  | compiled {pattern : Pattern} {dice : Dice} (compiles : pattern.compile.value.1 = .ok ())
      (member : dice ∈ pattern.compile.value.2.dice) : Made dice
  | amended {dice : Dice} (made : Made dice) (changes : List (Field × UInt32)) : Made (dice.amend changes).2

theorem made_proper (made : Made dice) : Proper dice.toDraft := by
  have checked {dice : Dice} : Checked dice → Proper dice.toDraft := by
    rintro ⟨draft, built⟩
    obtain ⟨proper, same⟩ := proper_of_build built
    rwa [same]
  induction made with
  | built built => exact checked ⟨_, built⟩
  | read read => exact checked (ofText_checked read)
  | compiled compiles member => exact checked (compiled_checked compiles member)
  | @amended dice made changes ih =>
    by_cases proper : Proper (dice.setAll changes)
    · obtain ⟨amended, done, same⟩ := amend_proper proper
      rw [done, same]
      exact proper
    · rwa [amend_improper proper]

def number (draft : Draft) : Field → UInt32
  | .sides => draft.sides
  | .amount => draft.amount
  | .dropLowest => draft.dropLowest
  | .dropHighest => draft.dropHighest

theorem number_set (draft : Draft) (field : Field) (value : UInt32) :
    number (draft.set field value) field = value ∧
      ∀ other, other ≠ field → number (draft.set field value) other = number draft other := by
  refine ⟨by cases field <;> rfl, fun other apart => ?_⟩
  cases field <;> cases other <;> first | rfl | contradiction

def refusal (draft : Draft) : String :=
  if draft.sides = 0 then "Invalid value for sides ('0')"
  else "You can not drop more dice than amount (" ++ toString (draft.dropLowest.toNat + draft.dropHighest.toNat) ++
    " dropped out of " ++ toString draft.amount.toNat ++ ")"

theorem complaint_message (draft : Draft) : (Error.invalid (complaint draft)).message = refusal draft := by
  change (complaint draft).message = refusal draft
  rw [complaint, refusal]
  split <;> rfl

/-- How one number of some dice is set: as wanted and alone, or not at all. -/
structure Sets (dice : Dice) (field : Field) (value : UInt32) : Prop where
  accepted : (dice.amend [(field, value)]).1 = .ok () ↔ Proper (dice.set field value)
  changed : Proper (dice.set field value) → number (dice.amend [(field, value)]).2.toDraft field = value ∧
    ∀ other, other ≠ field → number (dice.amend [(field, value)]).2.toDraft other = number dice.toDraft other
  refused : ¬ Proper (dice.set field value) →
    dice.amend [(field, value)] = (.error (complaint (dice.set field value)), dice) ∧
      (Error.invalid (complaint (dice.set field value))).message = refusal (dice.set field value)

theorem sets (dice : Dice) (field : Field) (value : UInt32) : Sets dice field value := by
  by_cases proper : Proper (dice.set field value)
  · obtain ⟨amended, done, same⟩ : ∃ amended : Dice, dice.amend [(field, value)] = (.ok (), amended) ∧
        amended.toDraft = dice.set field value := amend_proper proper
    refine ⟨iff_of_true (by rw [done]) proper, fun _ => ?_, fun improper => absurd proper improper⟩
    rw [done, same]
    exact number_set dice.toDraft field value
  · have done : dice.amend [(field, value)] = (.error (complaint (dice.set field value)), dice) := amend_improper proper
    refine ⟨iff_of_false ?_ proper, fun proper' => absurd proper' proper, fun _ => ⟨done, complaint_message _⟩⟩
    rw [done]
    exact nofun

/-- However dice came about, they can be thrown, and a number of theirs is set exactly if they can be thrown with it. -/
theorem made_settable (made : Made dice) : Proper dice.toDraft ∧ ∀ field value, Sets dice field value :=
  ⟨made_proper made, sets dice⟩

/-- Dice that drop all that they throw have no room for one more drop, though that makes more than a word can hold. -/
theorem made_settable_limit :
    ∃ dice : Dice, Made dice ∧ dice.toDraft = ⟨6, 4294967295, 4294967295, 0⟩ ∧ Proper dice.toDraft ∧
    Sets dice .dropHighest 1 ∧ dice.amend [(.dropHighest, 1)] = (.error (.drops 4294967296 4294967295), dice) := by
  have built : (Draft.setAll { sides := 6 } [(.amount, 4294967295)]).build =
      .ok ⟨⟨6, 4294967295, 0, 0⟩, by decide, by decide⟩ := by
    decide +kernel
  obtain ⟨proper, settable⟩ := made_settable (.amended (.built built) [(.dropLowest, 4294967295)])
  have sets := settable .dropHighest 1
  exact ⟨_, .amended (.built built) [(.dropLowest, 4294967295)], by decide +kernel, proper, sets,
    (sets.refused (mt Proper.drops (by decide +kernel))).1⟩

end DiceNotation.Proofs.DiceChanges

import DiceNotation.Proofs.Extraction
import DiceNotation.Proofs.Faults
import DiceNotation.Proofs.Lifecycle
import DiceNotation.Proofs.PatternText
import DiceNotation.Proofs.Substitution
import Mathlib.Data.List.Forall2

/-! Placeholders and the throws that they stand for. A placeholder without a throw is found before anything is read,
so whatever has been evaluated has a throw for each of them, and can be shown with all of them filled in. -/

namespace DiceNotation.Proofs.Placeholders
open DiceNotation.Proofs.Extraction Faults Lifecycle PatternCalls Runs TemplateGrowth
open Expression (Failure)
open Template (Piece)

variable {template : Template} {throws : List Throw} {pieces : List Piece} {outcome : Outcome} {index : Nat}

/-- The leftmost placeholder that has no throw. -/
def FirstUnbound (template : Template) (throws : List Throw) (index : Nat) : Prop :=
  ∃ before behind, template.placeholders = before ++ index :: behind ∧ (∀ earlier ∈ before, earlier < throws.length) ∧
    throws.length ≤ index

theorem firstUnbound_iff : FirstUnbound template throws index ↔
    (indices template.pieces).find? (throws.length ≤ ·) = some index := by
  rw [← placeholders_eq, List.find?_eq_some_iff_append]
  simp only [decide_eq_true_eq, Bool.not_eq_true', decide_eq_false_iff_not, Nat.not_le]
  constructor
  · rintro ⟨before, behind, same, earlier, missing⟩
    exact ⟨missing, before, behind, same, earlier⟩
  · rintro ⟨missing, before, behind, same, earlier⟩
    exact ⟨before, behind, same, earlier, missing⟩

theorem exists_firstUnbound : (∃ index, FirstUnbound template throws index) ↔
    ∃ index ∈ template.placeholders, throws.length ≤ index := by
  simp only [firstUnbound_iff, ← Option.isSome_iff_exists, List.find?_isSome, decide_eq_true_eq, placeholders_eq]

section Checks

private theorem go_error {failure : Failure} : Template.render.go (Outcome.boundTotal throws) pieces = .error failure ↔
    ∃ index, (indices pieces).find? (throws.length ≤ ·) = some index ∧ failure = ⟨.unboundPlaceholder index, none⟩ := by
  induction pieces with
  | nil => simp [indices, Template.render.go]
  | cons piece rest ih =>
    cases piece with
    | text letters =>
      rw [Template.render.go, bind_error, indices, ← ih]
      simp [pure, Except.pure]
    | placeholder index =>
      rw [Template.render.go, bind_error, indices, Outcome.boundTotal]
      by_cases inside : index < throws.length
      · rw [List.getElem?_eq_getElem inside, List.find?_cons_of_neg (by simpa using inside), ← ih]
        simp [bind_error, pure, Except.pure]
      · rw [List.getElem?_eq_none (by omega), List.find?_cons_of_pos (by simpa using inside)]
        simp [eq_comm]

/-- Of all that can go wrong with an outcome, a placeholder without a throw goes wrong first. -/
theorem ofThrows_unbound {position : Option Nat} :
    Outcome.ofThrows template throws = .error (.arithmetic ⟨.unboundPlaceholder index, position⟩) ↔
      position = none ∧ FirstUnbound template throws index := by
  have total : Outcome.ofThrows template throws = .error (.arithmetic ⟨.unboundPlaceholder index, position⟩) ↔
      Outcome.totalOf template throws = .error ⟨.unboundPlaceholder index, position⟩ := by
    rw [Outcome.ofThrows]
    split <;> simp_all
  rw [total, Outcome.totalOf, bind_error, Template.render, go_error, firstUnbound_iff]
  constructor
  · rintro (⟨found, unbound, same⟩ | ⟨text, -, failed⟩)
    · cases same
      exact ⟨rfl, unbound⟩
    · rcases bind_error.mp failed with failed | ⟨value, -, failed⟩
      · exact absurd rfl (origin_of_evaluate failed)
      · split at failed
        next => contradiction
        next fault refused =>
          cases failed
          exact absurd (toInteger_error refused) (by simp)
  · rintro ⟨rfl, unbound⟩
    exact .inl ⟨index, unbound, rfl⟩

end Checks

section Showing

def Shows (throws : List Throw) (verbose : Bool) : Piece → String → Prop
  | .text letters, part => part = letters
  | .placeholder index, part => ∃ throw, throws[index]? = some throw ∧ part = throw.format verbose

structure Shown (template : Template) (throws : List Throw) (outcome : Outcome) : Prop where
  bound : ∀ index ∈ template.placeholders, index < throws.length
  written : ∀ verbose, ∃ parts, List.Forall₂ (Shows throws verbose) template.pieces parts ∧
    outcome.format verbose = String.join parts

theorem shown_of_ofThrows (settled : Outcome.ofThrows template throws = .ok outcome) : Shown template throws outcome := by
  obtain ⟨rfl, rfl, settled⟩ := PatternText.ofThrows_ok settled
  obtain ⟨text, tree, value, rendered, -⟩ := PatternText.totalOf_ok settled
  have bound := Substitution.bound_of_render rendered
  refine ⟨fun index member => bound index (mem_indices.mp (placeholders_eq _ ▸ member)), fun verbose => ⟨_, ?_, rfl⟩⟩
  rw [List.forall₂_map_right_iff, List.forall₂_same]
  intro piece member
  cases piece with
  | text letters => rfl
  | placeholder index =>
    have inside := bound index member
    exact ⟨_, List.getElem?_eq_getElem inside, by simp [Piece.fill, List.getElem?_eq_getElem inside]⟩

end Showing

section Rolling
variable {pattern : Pattern} {words : Words}

theorem mapM_length (dice : List Dice) (words : Words) : (dice.mapM Dice.roll words).value.1.length = dice.length := by
  induction dice generalizing words with
  | nil => rfl
  | cons first rest ih =>
    rw [List.mapM_cons, value_bind, value_bind]
    exact congrArg Nat.succ (ih _)

/-- What a roll of a pattern shows, one throw for each group and for each placeholder of the pattern it leaves. -/
structure Aligned (left : Pattern) (outcome : Outcome) : Prop where
  shown : Shown left.template outcome.throws outcome
  placeholders : outcome.throws.length = left.template.placeholders.length
  dice : outcome.throws.length = left.dice.length

theorem aligned_of_roll (coherent : Coherent pattern) (rolled : (pattern.roll words).value.1.1 = .ok outcome) :
    Aligned (pattern.roll words).value.1.2 outcome := by
  cases extracts : pattern.extract with
  | error violation =>
    rw [roll_refused (ready_refused extracts coherent)] at rolled
    cases rolled
  | ok extraction =>
    rw [roll_ready (ready_filled extracts coherent)] at rolled ⊢
    obtain ⟨-, throws, -⟩ := PatternText.ofThrows_ok rolled
    have settled : Outcome.ofThrows extraction.template outcome.throws = .ok outcome := by
      rw [throws]
      exact rolled
    have length : outcome.throws.length = extraction.dice.length := by
      rw [throws]
      exact mapM_length _ words
    have count : extraction.template.placeholders.length = extraction.dice.length := by
      rw [(ofFragments_extracted extracts).numbered, List.length_range]
    exact ⟨shown_of_ofThrows settled, length.trans count.symm, length⟩

/-- Placeholders without a throw are the only reason to complain of one, and the leftmost is named. Where there is an
outcome, all of them have throws; and a roll makes one throw for each, whatever was called on the pattern before. -/
theorem placeholders_bound :
    (∀ template throws index position,
      Outcome.ofThrows template throws = .error (.arithmetic ⟨.unboundPlaceholder index, position⟩) ↔
        position = none ∧ FirstUnbound template throws index) ∧
    (∀ template throws, (∃ index, FirstUnbound template throws index) ↔ ∃ index ∈ template.placeholders, throws.length ≤ index) ∧
    (∀ template throws outcome, Outcome.ofThrows template throws = .ok outcome → Shown template throws outcome) ∧
    ∀ text fresh calls words outcome, Pattern.ofText text = .ok fresh →
      ((after fresh calls).roll words).value.1.1 = .ok outcome → Aligned ((after fresh calls).roll words).value.1.2 outcome := by
  refine ⟨fun _ _ _ _ => ofThrows_unbound, fun _ _ => exists_firstUnbound, fun _ _ _ => shown_of_ofThrows, ?_⟩
  intro text fresh calls words outcome made rolled
  obtain ⟨-, rfl⟩ := ofText_ok.mp made
  exact aligned_of_roll (after_keeps calls (coherent_fresh _)).1 rolled

private def foreign : Template :=
  ⟨[.text "))", .placeholder 0, .placeholder 18446744073709551615, .text "?", .placeholder 2], by simp [Template.Merged]⟩

private def crossed : Template :=
  ⟨[.placeholder 1, .text "-", .placeholder 0, .text "*", .placeholder 1], by simp [Template.Merged]⟩

/-- Text that is no expression does not keep a placeholder from being named; placeholders may be crossed and repeated;
and a roll that comes after others is shown in full. -/
theorem placeholders_bound_crossed :
    (FirstUnbound foreign [⟨[4], [], "1d6"⟩] 18446744073709551615 ∧
      Outcome.ofThrows foreign [⟨[4], [], "1d6"⟩] = .error (.arithmetic ⟨.unboundPlaceholder 18446744073709551615, none⟩)) ∧
    (∃ outcome, Outcome.ofThrows crossed [⟨[4], [], "1d6"⟩, ⟨[2, 3], [1], "3d6l1"⟩] = .ok outcome ∧ outcome.total = -15 ∧
      Shown crossed [⟨[4], [], "1d6"⟩, ⟨[2, 3], [1], "3d6l1"⟩] outcome) ∧
    ∃ fresh outcome, Pattern.ofText "3d6L1 - d4" = .ok fresh ∧
      ((after fresh [.roll (Words.scripted #[] 1)]).roll (Words.scripted #[] 7)).value.1.1 = .ok outcome ∧
      Aligned ((after fresh [.roll (Words.scripted #[] 1)]).roll (Words.scripted #[] 7)).value.1.2 outcome := by
  obtain ⟨refused, -, shown, rolled⟩ := placeholders_bound
  have unbound : FirstUnbound foreign [⟨[4], [], "1d6"⟩] 18446744073709551615 := ⟨[0], [2], rfl, by decide, by decide⟩
  have settled : Outcome.ofThrows crossed [⟨[4], [], "1d6"⟩, ⟨[2, 3], [1], "3d6l1"⟩] =
      .ok ⟨-15, [⟨[4], [], "1d6"⟩, ⟨[2, 3], [1], "3d6l1"⟩], crossed⟩ := by
    decide +kernel
  have made : Pattern.ofText "3d6L1 - d4" = .ok { source := normalize "3d6L1 - d4" } := ofText_ok.mpr ⟨by decide +kernel, rfl⟩
  obtain ⟨outcome, answer⟩ := exists_of_isOk ((after { source := normalize "3d6L1 - d4" }
    [.roll (Words.scripted #[] 1)]).roll (Words.scripted #[] 7)).value.1.1 (by decide +kernel)
  exact ⟨⟨unbound, (refused _ _ _ _).mpr ⟨rfl, unbound⟩⟩, ⟨_, settled, rfl, shown _ _ _ settled⟩,
    _, outcome, made, answer, rolled _ _ _ _ _ made answer⟩

end Rolling

end DiceNotation.Proofs.Placeholders

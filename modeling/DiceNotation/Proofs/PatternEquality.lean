import DiceNotation.Proofs.Lifecycle
import Mathlib.Data.List.Forall2

/-! When two patterns count as equal. Their groups are compared by sides and amounts only, so the comparison says
little of patterns in general; of those that calls have led to it says everything, for a source leaves no choice
in what is taken out of it. -/

namespace DiceNotation.Proofs.PatternEquality
open Lifecycle PatternCalls

variable {text text' : String} {first second fresh fresh' : Pattern}

theorem beq_self (pattern : Pattern) : (pattern == pattern) = true := by
  have dice (dice : Dice) : (dice == dice) = true := by
    change (dice.sides == dice.sides && dice.amount == dice.amount) = true
    simp
  have groups (groups : List Dice) : (groups == groups) = true := by
    induction groups with
    | nil => rfl
    | cons group rest ih =>
      rw [List.cons_beq_cons, dice, ih]
      rfl
  change (pattern.source == pattern.source && pattern.extraction == pattern.extraction) = true
  rw [beq_self_eq_true, Bool.true_and]
  cases pattern.extraction with
  | none => rfl
  | some extraction =>
    change (extraction.dice == extraction.dice && extraction.template == extraction.template) = true
    rw [groups, beq_self_eq_true]
    rfl

/-- Equal patterns have the same source, and neither is compiled without the other. -/
theorem of_beq (same : (first == second) = true) : first.source = second.source ∧ first.isCompiled = second.isCompiled := by
  change (first.source == second.source && first.extraction == second.extraction) = true at same
  obtain ⟨source, extraction⟩ := Bool.and_eq_true_iff.mp same
  refine ⟨eq_of_beq source, ?_⟩
  rw [Pattern.isCompiled, Pattern.isCompiled]
  cases found : first.extraction <;> cases found' : second.extraction
  case none.some | some.none =>
    rw [found, found'] at extraction
    contradiction
  all_goals rfl

/-- What a pattern holds is settled by its source once it is known to hold anything. -/
theorem eq_of_coherent (coherent : Coherent first) (coherent' : Coherent second) (source : first.source = second.source)
    (flag : first.isCompiled = second.isCompiled) : first = second := by
  have held : first.extraction = second.extraction := by
    cases compiled : first.isCompiled with
    | false =>
      rw [compiled, eq_comm] at flag
      rw [Pattern.isCompiled, Option.isSome_eq_false_iff, Option.isNone_iff_eq_none] at compiled flag
      rw [compiled, flag]
    | true =>
      obtain ⟨extraction, held, extracts⟩ := extract_of_compiled coherent compiled
      obtain ⟨extraction', held', extracts'⟩ := extract_of_compiled coherent' (flag.symm.trans compiled)
      rw [extract_of_source source] at extracts
      rw [held, held', Except.ok.inj (extracts.symm.trans extracts')]
  cases first
  cases second
  congr

theorem coherent_after (made : Pattern.ofText text = .ok fresh) (calls : List Call) : Coherent (after fresh calls) := by
  obtain ⟨-, rfl⟩ := ofText_ok.mp made
  exact (after_keeps calls (coherent_fresh _)).1

/-- All four numbers agree, those of the drops too. -/
def SameNumbers (first second : Dice) : Prop := first.toDraft = second.toDraft

/-- Whatever has been called on two patterns, they are equal exactly if they have the same source and are both
compiled or both not; and then no roll can tell them apart. -/
theorem equal_reached (made : Pattern.ofText text = .ok fresh) (made' : Pattern.ofText text' = .ok fresh')
    (calls calls' : List Call) :
    ((after fresh calls == after fresh' calls') = true ↔
      (after fresh calls).source = (after fresh' calls').source ∧
        (after fresh calls).isCompiled = (after fresh' calls').isCompiled) ∧
    ((after fresh calls == after fresh' calls') = true →
      List.Forall₂ SameNumbers (after fresh calls).dice (after fresh' calls').dice ∧
        ∀ words, (after fresh calls).roll words = (after fresh' calls').roll words) := by
  have settled : (after fresh calls).source = (after fresh' calls').source ∧
      (after fresh calls).isCompiled = (after fresh' calls').isCompiled → after fresh calls = after fresh' calls' :=
    fun ⟨source, flag⟩ => eq_of_coherent (coherent_after made calls) (coherent_after made' calls') source flag
  refine ⟨⟨of_beq, fun alike => ?_⟩, fun equal => ?_⟩
  · rw [settled alike]
    exact beq_self _
  · rw [settled (of_beq equal)]
    exact ⟨List.forall₂_same.mpr fun dice _ => rfl, fun words => rfl⟩

/-- Equal patterns come of two texts and of different calls. Groups of the same sizes that drop another number of
dice are equal, and yet the patterns that hold them are not. -/
theorem equal_reached_drops : ∃ fresh fresh' other : Pattern,
    Pattern.ofText " 4D6 L1" = .ok fresh ∧ Pattern.ofText "4d6l1" = .ok fresh' ∧ Pattern.ofText "4d6" = .ok other ∧
    (after fresh [.roll (Words.scripted #[] 7), .compile] == after fresh' [.compile]) = true ∧
    (∀ words, (after fresh [.roll (Words.scripted #[] 7), .compile]).roll words = (after fresh' [.compile]).roll words) ∧
    ((after other [.compile]).dice == (after fresh' [.compile]).dice) = true ∧
    (after other [.compile] == after fresh' [.compile]) = false := by
  have spaced : Pattern.ofText " 4D6 L1" = .ok { source := normalize " 4D6 L1" } := ofText_ok.mpr ⟨by decide +kernel, rfl⟩
  have dropping : Pattern.ofText "4d6l1" = .ok { source := normalize "4d6l1" } := ofText_ok.mpr ⟨by decide +kernel, rfl⟩
  have whole : Pattern.ofText "4d6" = .ok { source := normalize "4d6" } := ofText_ok.mpr ⟨by decide +kernel, rfl⟩
  obtain ⟨same, alike⟩ := equal_reached spaced dropping [.roll (Words.scripted #[] 7), .compile] [.compile]
  obtain ⟨different, -⟩ := equal_reached whole dropping [.compile] [.compile]
  have equal := same.mpr ⟨by decide +kernel, by decide +kernel⟩
  refine ⟨_, _, _, spaced, dropping, whole, equal, (alike equal).2, by decide +kernel, Bool.eq_false_iff.mpr fun mistaken => ?_⟩
  have sources := (different.mp mistaken).1
  revert sources
  decide +kernel

end DiceNotation.Proofs.PatternEquality

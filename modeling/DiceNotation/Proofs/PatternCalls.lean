import DiceNotation.Pattern
import DiceNotation.Proofs.Runs

/-! What the calls on a pattern answer and what they leave. A pattern compiles exactly if its groups can be taken out
of its source, and a roll goes on from the pattern that compiling leaves. -/

namespace DiceNotation.Proofs.PatternCalls
open Dice (Violation)
open Runs

variable {text : String} {pattern ready : Pattern} {extraction : Extraction} {violation : Violation} {error : Error}
variable {words : Words}

/-- A new pattern holds the normal form of its text, of which there has to be something. -/
theorem ofText_ok : Pattern.ofText text = .ok pattern ↔ normalize text ≠ "" ∧ pattern = { source := normalize text } := by
  rw [Pattern.ofText]
  by_cases empty : normalize text = ""
  · simp [empty]
  · rw [if_neg (by simpa using empty), Except.ok.injEq, eq_comm]
    exact (and_iff_right empty).symm

theorem compile_extracted (extracts : pattern.extract = .ok extraction) :
    pattern.compile = ⟨(.ok (), { pattern with extraction := some extraction }),
      [.compiledPattern pattern.source extraction.template.text extraction.dice.length]⟩ := by
  rw [Pattern.compile, extracts]
  rfl

theorem compile_refused (refused : pattern.extract = .error violation) :
    pattern.compile = ⟨(.error (.invalid violation), pattern), []⟩ := by
  rw [Pattern.compile, refused]
  rfl

theorem compile_ok (extracts : pattern.extract = .ok extraction) :
    pattern.compile.value = (.ok (), { pattern with extraction := some extraction }) := by
  rw [compile_extracted extracts]

theorem compile_error (refused : pattern.extract = .error violation) :
    pattern.compile.value = (.error (.invalid violation), pattern) := by
  rw [compile_refused refused]

theorem ensureCompiled_none (new : pattern.extraction = none) :
    pattern.ensureCompiled.value = pattern.compile.value := by
  rw [Pattern.ensureCompiled, Pattern.isCompiled, new]
  rfl

theorem ensureCompiled_some (found : pattern.extraction = some extraction) :
    pattern.ensureCompiled.value = (.ok (), pattern) := by
  rw [Pattern.ensureCompiled, Pattern.isCompiled, found]
  rfl

/-- Nothing that comes of the arithmetic is seen in the words that are left. -/
theorem rollCompiled_value (pattern : Pattern) (words : Words) :
    (pattern.rollCompiled words).value =
      (Outcome.ofThrows pattern.template (pattern.dice.mapM Dice.roll words).value.1, (pattern.dice.mapM Dice.roll words).value.2) := by
  rw [Pattern.rollCompiled, value_bind]
  cases Outcome.ofThrows pattern.template (pattern.dice.mapM Dice.roll words).value.1 <;> rfl

theorem roll_refused (refused : pattern.ensureCompiled.value = (.error error, ready)) :
    (pattern.roll words).value = ((.error error, ready), words) := by
  rw [Pattern.roll, value_bind, value_lift, refused]
  rfl

theorem roll_ready (compiled : pattern.ensureCompiled.value = (.ok (), ready)) :
    (pattern.roll words).value =
      ((Outcome.ofThrows ready.template (ready.dice.mapM Dice.roll words).value.1, ready),
        (ready.dice.mapM Dice.roll words).value.2) := by
  rw [Pattern.roll, value_bind, value_lift, compiled]
  change ((ready.rollCompiled >>= fun answer => pure (answer, ready)) words).value = _
  rw [value_bind, rollCompiled_value]
  rfl

/-- Rolling a text is rolling the new pattern that it makes. -/
theorem rollText_made (made : Pattern.ofText text = .ok pattern) :
    (rollText text words).value = ((pattern.roll words).value.1.1, (pattern.roll words).value.2) := by
  rw [rollText, made, value_bind]
  rfl

end DiceNotation.Proofs.PatternCalls

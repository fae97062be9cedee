import DiceNotation.Proofs.PatternCalls
import Mathlib.Data.List.Basic

/-! Patterns under any sequence of calls. There are only two states that a new pattern can come to: as its text
made it, and with its groups taken out. Which of them it is depends on what was called, and what is in it on the
source alone. -/

namespace DiceNotation.Proofs.Lifecycle
open PatternCalls

/-- What may be asked of a pattern. Every roll has a source of words of its own. -/
inductive Call where
  | compile
  | roll (words : Words)

def Call.make : Call → Pattern → Except Error (Option Outcome) × Pattern
  | compile, pattern => (pattern.compile.value.1.map fun _ => none, pattern.compile.value.2)
  | roll words, pattern => ((pattern.roll words).value.1.1.map some, (pattern.roll words).value.1.2)

def after (pattern : Pattern) (calls : List Call) : Pattern :=
  calls.foldl (fun pattern call => (call.make pattern).2) pattern

variable {text : String} {pattern fresh : Pattern} {extraction : Extraction} {violation : Dice.Violation}

/-- What a pattern holds is what can be taken out of its source. -/
def Coherent (pattern : Pattern) : Prop :=
  ∀ extraction, pattern.extraction = some extraction → pattern.extract = .ok extraction

def filled (pattern : Pattern) (extraction : Extraction) : Pattern := { pattern with extraction := some extraction }

section Steps

theorem ready_refused (refused : pattern.extract = .error violation) (coherent : Coherent pattern) :
    pattern.ensureCompiled.value = (.error (.invalid violation), pattern) := by
  cases held : pattern.extraction with
  | none => rw [ensureCompiled_none held, compile_error refused]
  | some extraction =>
    rw [coherent extraction held] at refused
    contradiction

theorem ready_filled (extracts : pattern.extract = .ok extraction) (coherent : Coherent pattern) :
    pattern.ensureCompiled.value = (.ok (), filled pattern extraction) := by
  cases held : pattern.extraction with
  | none => rw [ensureCompiled_none held, compile_ok extracts, filled]
  | some found =>
    obtain rfl : extraction = found := Except.ok.inj (extracts.symm.trans (coherent found held))
    rw [ensureCompiled_some held, filled, ← held]

/-- Where a group is refused, every call fails alike and nothing changes. -/
theorem make_refused (call : Call) (refused : pattern.extract = .error violation) (coherent : Coherent pattern) :
    call.make pattern = (.error (.invalid violation), pattern) := by
  cases call with
  | compile =>
    rw [Call.make, compile_error refused]
    rfl
  | roll words =>
    rw [Call.make, roll_refused (ready_refused refused coherent)]
    rfl

/-- Where no group is refused, every call leaves the pattern compiled, also one that fails. -/
theorem make_filled (call : Call) (extracts : pattern.extract = .ok extraction) (coherent : Coherent pattern) :
    (call.make pattern).2 = filled pattern extraction := by
  cases call with
  | compile => rw [Call.make, compile_ok extracts, filled]
  | roll words => rw [Call.make, roll_ready (ready_filled extracts coherent)]

theorem coherent_filled (extracts : pattern.extract = .ok extraction) : Coherent (filled pattern extraction) := by
  rintro found ⟨⟩
  exact extracts

theorem coherent_fresh (source : String) : Coherent { source } := by
  rintro extraction ⟨⟩

theorem make_keeps (call : Call) (coherent : Coherent pattern) :
    Coherent (call.make pattern).2 ∧ (call.make pattern).2.source = pattern.source := by
  cases extracts : pattern.extract with
  | error violation =>
    rw [make_refused call extracts coherent]
    exact ⟨coherent, rfl⟩
  | ok extraction =>
    rw [make_filled call extracts coherent]
    exact ⟨coherent_filled extracts, rfl⟩

end Steps

section Sequences
variable (calls : List Call)

theorem after_keeps (coherent : Coherent pattern) :
    Coherent (after pattern calls) ∧ (after pattern calls).source = pattern.source := by
  induction calls generalizing pattern with
  | nil => exact ⟨coherent, rfl⟩
  | cons call rest ih =>
    obtain ⟨kept, same⟩ := make_keeps call coherent
    obtain ⟨keptAll, sameAll⟩ := ih kept
    exact ⟨keptAll, sameAll.trans same⟩

theorem after_refused (refused : pattern.extract = .error violation) (coherent : Coherent pattern) :
    after pattern calls = pattern := by
  induction calls with
  | nil => rfl
  | cons call rest ih =>
    rw [after, List.foldl_cons, make_refused call refused coherent]
    exact ih

/-- The first of the calls fills the pattern, and the others find it full. -/
theorem after_filled (extracts : pattern.extract = .ok extraction) (coherent : Coherent pattern) (some : calls ≠ []) :
    after pattern calls = filled pattern extraction := by
  induction calls generalizing pattern with
  | nil => contradiction
  | cons call rest ih =>
    rw [after, List.foldl_cons, make_filled call extracts coherent]
    by_cases last : rest = []
    · rw [last, List.foldl_nil]
    · exact ih extracts (coherent_filled extracts) last

end Sequences

/-- What lasts of a pattern that a text has made, whatever has been called on it. -/
structure Lasting (text : String) (fresh reached : Pattern) : Prop where
  source : reached.source = normalize text
  some : reached.source ≠ ""
  bare : reached.isCompiled = false → reached.dice = [] ∧ reached.template = {}
  held : reached.isCompiled = true → fresh.compile.value.1 = .ok () ∧
    reached.dice = fresh.compile.value.2.dice ∧ reached.template = fresh.compile.value.2.template
  stays : reached.isCompiled = true → ∀ calls, (after reached calls).isCompiled = true
  refused : ∀ error, reached.compile.value.1 = .error error → (∃ violation, error = .invalid violation) ∧
    reached.compile.value.2 = reached ∧ ∀ calls (call : Call), call.make (after reached calls) = (.error error, reached)
  evaluated : reached.compile.value.1 = .ok () → ∀ words, ∃ left, left.isCompiled = true ∧
    (reached.roll words).value.1 = (Outcome.ofThrows left.template (left.dice.mapM Dice.roll words).value.1, left)
  again : ∀ count, after reached (.compile :: List.replicate count .compile) = after reached [.compile]

section Lasting
variable {reached : Pattern}

theorem extract_of_source (same : reached.source = fresh.source) : reached.extract = fresh.extract := by
  rw [Pattern.extract, Pattern.extract, same]

private theorem extracted_of_uncompiled (uncompiled : reached.isCompiled = false) : reached.extracted = {} := by
  rw [Pattern.isCompiled, Option.isSome_eq_false_iff, Option.isNone_iff_eq_none] at uncompiled
  rw [Pattern.extracted, uncompiled, Option.getD_none]

theorem extract_of_compiled (coherent : Coherent reached) (compiled : reached.isCompiled = true) :
    ∃ extraction, reached.extraction = some extraction ∧ reached.extract = .ok extraction := by
  obtain ⟨extraction, held⟩ := Option.isSome_iff_exists.mp compiled
  exact ⟨extraction, held, coherent extraction held⟩

private theorem held_of_coherent (coherent : Coherent reached) (same : reached.source = fresh.source)
    (compiled : reached.isCompiled = true) : fresh.compile.value.1 = .ok () ∧
      reached.dice = fresh.compile.value.2.dice ∧ reached.template = fresh.compile.value.2.template := by
  obtain ⟨extraction, held, extracts⟩ := extract_of_compiled coherent compiled
  rw [extract_of_source same] at extracts
  rw [compile_ok extracts, Pattern.dice, Pattern.template, Pattern.extracted, held]
  exact ⟨rfl, rfl, rfl⟩

private theorem stays_compiled (coherent : Coherent reached) (compiled : reached.isCompiled = true) (calls : List Call) :
    (after reached calls).isCompiled = true := by
  obtain ⟨extraction, held, extracts⟩ := extract_of_compiled coherent compiled
  by_cases none : calls = []
  · rwa [none]
  · rw [after_filled calls extracts coherent none]
    rfl

private theorem refused_for_good (coherent : Coherent reached) {error : Error}
    (failed : reached.compile.value.1 = .error error) :
    (∃ violation, error = .invalid violation) ∧ reached.compile.value.2 = reached ∧
      ∀ calls (call : Call), call.make (after reached calls) = (.error error, reached) := by
  cases extracts : reached.extract with
  | ok extraction =>
    rw [compile_ok extracts] at failed
    contradiction
  | error violation =>
    rw [compile_error extracts] at failed
    obtain rfl := Except.error.inj failed
    refine ⟨⟨violation, rfl⟩, congrArg Prod.snd (compile_error extracts), fun calls call => ?_⟩
    rw [after_refused calls extracts coherent]
    exact make_refused call extracts coherent

private theorem evaluated_after (coherent : Coherent reached) (compiles : reached.compile.value.1 = .ok ()) (words : Words) :
    ∃ left, left.isCompiled = true ∧
      (reached.roll words).value.1 = (Outcome.ofThrows left.template (left.dice.mapM Dice.roll words).value.1, left) := by
  cases extracts : reached.extract with
  | ok extraction => exact ⟨filled reached extraction, rfl, by rw [roll_ready (ready_filled extracts coherent)]⟩
  | error violation =>
    rw [compile_error extracts] at compiles
    contradiction

private theorem compiles_once (coherent : Coherent reached) (count : Nat) :
    after reached (.compile :: List.replicate count .compile) = after reached [.compile] := by
  cases extracts : reached.extract with
  | ok extraction =>
    rw [after_filled _ extracts coherent (List.cons_ne_nil _ _), after_filled _ extracts coherent (List.cons_ne_nil _ _)]
  | error violation => rw [after_refused _ extracts coherent, after_refused _ extracts coherent]

end Lasting

/-- Calls never change the source of a pattern, and fill it with nothing but what is taken out of that. -/
theorem calls_last (made : Pattern.ofText text = .ok fresh) (calls : List Call) :
    Lasting text fresh (after fresh calls) := by
  obtain ⟨some, rfl⟩ := ofText_ok.mp made
  obtain ⟨coherent, same⟩ := after_keeps calls (coherent_fresh (normalize text))
  constructor
  case source => exact same
  case some => rwa [same]
  case bare =>
    intro uncompiled
    have nothing := extracted_of_uncompiled uncompiled
    exact ⟨congrArg Extraction.dice nothing, congrArg Extraction.template nothing⟩
  case held => exact held_of_coherent coherent same
  case stays => exact stays_compiled coherent
  case refused => exact fun error => refused_for_good coherent
  case evaluated => exact evaluated_after coherent
  case again => exact compiles_once coherent

/-- One text whose arithmetic fails in every roll, and one that never compiles. -/
theorem calls_last_division :
    (∃ fresh, Pattern.ofText " 2D6 / 0" = .ok fresh ∧
      (Call.make (.roll (Words.scripted #[] 0)) fresh).1 = .error (.arithmetic ⟨.divisionByZero, none⟩) ∧
      Lasting " 2D6 / 0" fresh (after fresh [.roll (Words.scripted #[] 0), .compile])) ∧
    ∃ fresh, Pattern.ofText "1d6+d0" = .ok fresh ∧ fresh.compile.value.1 = .error (.invalid (.value .sides "0")) ∧
      Lasting "1d6+d0" fresh (after fresh [.compile, .roll (Words.scripted #[] 0)]) := by
  have divided : Pattern.ofText " 2D6 / 0" = .ok { source := normalize " 2D6 / 0" } := ofText_ok.mpr ⟨by decide +kernel, rfl⟩
  have sideless : Pattern.ofText "1d6+d0" = .ok { source := normalize "1d6+d0" } := ofText_ok.mpr ⟨by decide +kernel, rfl⟩
  refine ⟨⟨_, divided, by decide +kernel, calls_last divided _⟩, _, sideless, by decide +kernel, calls_last sideless _⟩

end DiceNotation.Proofs.Lifecycle

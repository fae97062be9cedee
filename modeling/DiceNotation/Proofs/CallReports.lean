import DiceNotation.Proofs.Lifecycle
import DiceNotation.Proofs.RollOrder

/-! What the calls on a pattern report. The events of a call follow from what it answers and from the pattern that it finds, and
those of many calls are the events of each in turn. -/

namespace DiceNotation.Proofs.CallReports
open Lifecycle PatternCalls Runs
open RollOrder (InOrder mapM_inOrder)

/-- An outcome where the call is a roll, and nothing where it is not. -/
abbrev Answer := Except Error (Option Outcome)

def perform : Call → Pattern → Logged (Answer × Pattern)
  | .compile, pattern => do
    let (answer, left) ← pattern.compile
    return (answer.map fun _ => none, left)
  | .roll words, pattern => do
    let ((answer, left), _) ← pattern.roll words
    return (answer.map some, left)

def performAll : List Call → Pattern → Logged (List Answer × Pattern)
  | [], pattern => return ([], pattern)
  | call :: calls, pattern => do
    let (answer, left) ← perform call pattern
    let (answers, last) ← performAll calls left
    return (answer :: answers, last)

variable {pattern before left last : Pattern} {extraction : Extraction} {violation : Dice.Violation} {error : Error}
variable {words : Words} {outcome : Outcome} {call : Call} {calls : List Call} {answer : Answer} {answers : List Answer}
variable {events opening : List Event}

def groupEvents (dice : List Dice) (throws : List Throw) : List Event :=
  List.zipWith (fun group throw => .rolledGroup group.name throw.total) dice throws

/-- What a roll reports of the compiling that has to come first. -/
inductive Opens (before : Pattern) : Pattern → List Event → Prop where
  | already (compiled : before.isCompiled = true) : Opens before before []
  | first {left : Pattern} (uncompiled : before.isCompiled = false) (compiles : before.compile.value = (.ok (), left)) :
    Opens before left [.compiledPattern before.source left.template.text left.dice.length]

/-- The events of one call, by what becomes of it. -/
inductive Reports (before : Pattern) : Call → Answer → Pattern → List Event → Prop where
  | compiled {left : Pattern} (compiles : before.compile.value = (.ok (), left)) :
    Reports before .compile (.ok none) left [.compiledPattern before.source left.template.text left.dice.length]
  | refused {error : Error} (refused : before.compile.value = (.error error, before)) :
    Reports before .compile (.error error) before []
  | unopened {words : Words} {error : Error} (uncompiled : before.isCompiled = false)
      (refused : before.compile.value = (.error error, before)) :
    Reports before (.roll words) (.error error) before []
  | unevaluated {words rest : Words} {left : Pattern} {throws : List Throw} {error : Error} {opening : List Event}
      (opens : Opens before left opening) (thrown : InOrder left.dice words (throws, rest))
      (failed : Outcome.ofThrows left.template throws = .error error) :
    Reports before (.roll words) (.error error) left (opening ++ groupEvents left.dice throws)
  | rolled {words rest : Words} {left : Pattern} {throws : List Throw} {outcome : Outcome} {opening : List Event}
      (opens : Opens before left opening) (thrown : InOrder left.dice words (throws, rest))
      (settled : Outcome.ofThrows left.template throws = .ok outcome) :
    Reports before (.roll words) (.ok (some outcome)) left
      (opening ++ groupEvents left.dice throws ++ [.rolledPattern before.source outcome.total])

/-- The events of calls in sequence, each on the pattern that the call before it has left. -/
inductive Chronicle : Pattern → List Call → List Answer → Pattern → List Event → Prop where
  | nil (pattern : Pattern) : Chronicle pattern [] [] pattern []
  | cons {before left last : Pattern} {call : Call} {calls : List Call} {answer : Answer} {answers : List Answer}
      {events others : List Event} (here : Reports before call answer left events)
      (there : Chronicle left calls answers last others) :
    Chronicle before (call :: calls) (answer :: answers) last (events ++ others)

section Steps

theorem perform_value (call : Call) (pattern : Pattern) : (perform call pattern).value = call.make pattern := by
  cases call <;> rfl

theorem perform_compile (pattern : Pattern) : (perform .compile pattern).events = pattern.compile.events :=
  List.append_nil _

theorem perform_roll (words : Words) (pattern : Pattern) : (perform (.roll words) pattern).events = (pattern.roll words).events :=
  List.append_nil _

theorem performAll_value (calls : List Call) (pattern : Pattern) : (performAll calls pattern).value.2 = after pattern calls := by
  induction calls generalizing pattern with
  | nil => rfl
  | cons call rest ih =>
    rw [after, List.foldl_cons, ← perform_value]
    exact ih _

theorem roll_events (dice : Dice) (words : Words) :
    (dice.roll words).events = [.rolledGroup dice.name (dice.roll words).value.1.total] := rfl

/-- Every group reports its own throw, in the order of the groups. -/
theorem mapM_events (dice : List Dice) (words : Words) :
    (dice.mapM Dice.roll words).events = groupEvents dice (dice.mapM Dice.roll words).value.1 := by
  induction dice generalizing words with
  | nil => rfl
  | cons first rest ih =>
    simp only [List.mapM_cons, events_bind, events_pure, roll_events, ih, List.append_nil]
    rfl

theorem rollCompiled_failed
    (failed : Outcome.ofThrows pattern.template (pattern.dice.mapM Dice.roll words).value.1 = .error error) :
    (pattern.rollCompiled words).events = groupEvents pattern.dice (pattern.dice.mapM Dice.roll words).value.1 := by
  rw [Pattern.rollCompiled, events_bind, failed, events_pure, List.append_nil, mapM_events]

theorem rollCompiled_settled
    (settled : Outcome.ofThrows pattern.template (pattern.dice.mapM Dice.roll words).value.1 = .ok outcome) :
    (pattern.rollCompiled words).events =
      groupEvents pattern.dice (pattern.dice.mapM Dice.roll words).value.1 ++ [.rolledPattern pattern.source outcome.total] := by
  rw [Pattern.rollCompiled, events_bind, settled, mapM_events]
  rfl

theorem roll_stopped (refused : pattern.ensureCompiled = ⟨(.error error, left), opening⟩) : (pattern.roll words).events = opening := by
  rw [Pattern.roll, events_bind, events_lift, value_lift, refused]
  exact List.append_nil _

theorem roll_opened (ready : pattern.ensureCompiled = ⟨(.ok (), left), opening⟩) :
    (pattern.roll words).events = opening ++ (left.rollCompiled words).events := by
  rw [Pattern.roll, events_bind, events_lift, value_lift, ready]
  exact congrArg (opening ++ ·) (List.append_nil _)

/-- Before it rolls, a pattern is compiled already, or compiles now, or cannot be compiled. -/
theorem ensureCompiled_cases (before : Pattern) :
    (∃ left opening, before.ensureCompiled = ⟨(.ok (), left), opening⟩ ∧ Opens before left opening ∧ left.source = before.source) ∨
      ∃ error, before.ensureCompiled = ⟨(.error error, before), []⟩ ∧ before.isCompiled = false ∧
        before.compile.value = (.error error, before) := by
  by_cases held : before.isCompiled = true
  · have stays : before.ensureCompiled = ⟨(.ok (), before), []⟩ := by
      rw [Pattern.ensureCompiled, if_pos held]
      rfl
    exact .inl ⟨before, [], stays, .already held, rfl⟩
  · have compiles : before.ensureCompiled = before.compile := by rw [Pattern.ensureCompiled, if_neg held]
    have uncompiled := Bool.eq_false_of_not_eq_true held
    cases extracts : before.extract with
    | ok extraction =>
      exact .inl ⟨_, _, compiles.trans (compile_extracted extracts), .first uncompiled (compile_ok extracts), rfl⟩
    | error violation =>
      exact .inr ⟨_, compiles.trans (compile_refused extracts), uncompiled, compile_error extracts⟩

/-- What a call reports is what its answer says that it has done. -/
theorem perform_reports (call : Call) (before : Pattern) :
    Reports before call (perform call before).value.1 (perform call before).value.2 (perform call before).events := by
  cases call with
  | compile =>
    rw [perform_value, perform_compile, Call.make]
    cases extracts : before.extract with
    | ok extraction =>
      rw [compile_extracted extracts]
      exact .compiled (compile_ok extracts)
    | error violation =>
      rw [compile_refused extracts]
      exact .refused (compile_error extracts)
  | roll words =>
    rw [perform_value, perform_roll, Call.make]
    obtain ⟨left, opening, ready, opens, source⟩ | ⟨error, refused, uncompiled, uncompilable⟩ := ensureCompiled_cases before
    · have thrown := mapM_inOrder left.dice words
      rw [roll_opened ready, roll_ready (congrArg Logged.value ready)]
      cases settled : Outcome.ofThrows left.template (left.dice.mapM Dice.roll words).value.1 with
      | ok outcome =>
        rw [rollCompiled_settled settled, ← List.append_assoc, source]
        exact .rolled opens thrown settled
      | error error =>
        rw [rollCompiled_failed settled]
        exact .unevaluated opens thrown settled
    · rw [roll_stopped refused, roll_refused (congrArg Logged.value refused)]
      exact .unopened uncompiled uncompilable

end Steps

section Runs

theorem performAll_cons (call : Call) (calls : List Call) (pattern : Pattern) :
    (performAll (call :: calls) pattern).events =
      (perform call pattern).events ++ (performAll calls (perform call pattern).value.2).events :=
  congrArg (_ ++ ·) (List.append_nil _)

theorem performAll_chronicle (calls : List Call) (pattern : Pattern) :
    Chronicle pattern calls (performAll calls pattern).value.1 (performAll calls pattern).value.2 (performAll calls pattern).events := by
  induction calls generalizing pattern with
  | nil => exact .nil pattern
  | cons call calls ih =>
    rw [performAll_cons]
    exact .cons (perform_reports call pattern) (ih _)

def reportedTotals (events : List Event) : List Int64 :=
  events.filterMap fun event =>
    match event with
    | .rolledPattern _ total => some total
    | _ => none

def answeredTotals (answers : List Answer) : List Int64 :=
  answers.filterMap fun answer =>
    match answer with
    | .ok (some outcome) => some outcome.total
    | _ => none

theorem reportedTotals_append (events others : List Event) :
    reportedTotals (events ++ others) = reportedTotals events ++ reportedTotals others :=
  List.filterMap_append

theorem reportedTotals_groups (dice : List Dice) (throws : List Throw) : reportedTotals (groupEvents dice throws) = [] := by
  induction dice generalizing throws with
  | nil => rfl
  | cons first rest ih =>
    cases throws with
    | nil => rfl
    | cons throw throws => exact ih throws

theorem Opens.totals (opens : Opens before left opening) : reportedTotals opening = [] := by
  cases opens <;> rfl

theorem Reports.totals (reports : Reports before call answer left events) : reportedTotals events = answeredTotals [answer] := by
  cases reports with
  | compiled => rfl
  | refused => rfl
  | unopened => rfl
  | unevaluated opens =>
    rw [reportedTotals_append, opens.totals, reportedTotals_groups]
    rfl
  | rolled opens =>
    rw [reportedTotals_append, reportedTotals_append, opens.totals, reportedTotals_groups]
    rfl

theorem Chronicle.totals (chronicle : Chronicle before calls answers last events) : reportedTotals events = answeredTotals answers := by
  induction chronicle with
  | nil => rfl
  | cons here _ ih =>
    rw [reportedTotals_append, here.totals, ih, answeredTotals, answeredTotals, ← List.filterMap_append]
    rfl

end Runs

/-- The log of calls in sequence, on any pattern, is made of what each call reports of itself. So the totals in it are those
that the rolls have answered, in their order. -/
theorem calls_reported (calls : List Call) (pattern : Pattern) :
    Chronicle pattern calls (performAll calls pattern).value.1 (after pattern calls) (performAll calls pattern).events ∧
      reportedTotals (performAll calls pattern).events = answeredTotals (performAll calls pattern).value.1 := by
  have chronicle := performAll_chronicle calls pattern
  refine ⟨?_, chronicle.totals⟩
  rwa [performAll_value] at chronicle

/-- Rolls that cannot be evaluated. Only the first of them compiles, and neither comes to a total of the pattern. -/
example : (performAll [.roll (Words.scripted #[] 0), .roll (Words.scripted #[] 0)] { source := "2d1/0" }).events =
    [.compiledPattern "2d1/0" "\x7b0\x7d/0" 1, .rolledGroup "2d1" 2, .rolledGroup "2d1" 2] := by
  decide +kernel

end DiceNotation.Proofs.CallReports

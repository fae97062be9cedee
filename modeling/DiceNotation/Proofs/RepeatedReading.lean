import DiceNotation.Proofs.DepthCounter
import DiceNotation.Proofs.FaultPlaces
import DiceNotation.Proofs.Faults
import DiceNotation.Proofs.GrammarSoundness
import DiceNotation.Proofs.Neighbours
import Mathlib.Order.Monotone.Basic

/-! Readers that are used again, whatever they have answered before. They go on from the two tokens that they look at, and
stay at the end of a text once all of it has been read. -/

namespace DiceNotation.Proofs.RepeatedReading
open Token Lookahead TokenSequence Reading Rounds ParallelReadings ReadingInvariants DepthCounter FaultPlaces Neighbours
open Expression (Fault Failure)

variable {text : List Char} {reader before after : Reader}

def called (reader : Reader) : Nat → Reader
  | 0 => reader
  | calls + 1 => (called reader calls).expression.2

theorem called_steady {holds : Reader → Prop} (steady : Steady holds Never (advance : Reading (List Char) Unit))
    (held : holds reader) (calls : Nat) : holds (called reader calls) := by
  induction calls with
  | zero => exact held
  | succ calls ih =>
    rw [called, expression_after]
    exact (whole_steady steady).after ih

section Counting

def countedCalls (spent : Fault) (reader : Lookahead (Counted (List Char))) : Nat → Lookahead (Counted (List Char))
  | 0 => reader
  | calls + 1 => (countedExpression spent (countedCalls spent reader calls)).2

/-- Before a call no operand is counted, and the call is answered whatever fault would show that its loops or levels have
run out. -/
structure CallEnds (spent : Fault) (reader : Reader) (calls : Nat) : Prop where
  beside : countedCalls spent (withDepth 0 reader) calls = withDepth 0 (called reader calls)
  depth : (countedCalls spent (withDepth 0 reader) calls).unread.depth = 0
  answer : (countedExpression spent (countedCalls spent (withDepth 0 reader) calls)).1 = (called reader calls).expression.1

theorem countedCalls_eq (spent : Fault) (reader : Reader) (calls : Nat) :
    countedCalls spent (withDepth 0 reader) calls = withDepth 0 (called reader calls) := by
  induction calls with
  | zero => rfl
  | succ calls ih => rw [countedCalls, called, ih, countedExpression_eq]

theorem call_ends (spent : Fault) (reader : Reader) (calls : Nat) : CallEnds spent reader calls where
  beside := countedCalls_eq spent reader calls
  depth := congrArg (·.unread.depth) (countedCalls_eq spent reader calls)
  answer := by rw [countedCalls_eq, countedExpression_eq]

end Counting

section Places

theorem advance_position (place : Nat) : Steady (fun reader : Reader => place ≤ reader.position) Never advance := by
  intro before far
  have shorter : Source.size (outcome advance before).2.unread ≤ Source.size before.unread := by
    rw [advance_unread]
    exact LawfulSource.shrinks before.unread
  left
  change place ≤ (outcome advance before).2.length - _
  rw [advance_length]
  exact far.trans (Nat.sub_le_sub_left shorter before.length)

theorem position_le (reads : Reads text reader) : reader.position ≤ text.length := by
  rw [Lookahead.position, reads.length]
  exact Nat.sub_le ..

end Places

section Windows

def behind (text : List Char) : Nat → List Char
  | 0 => text
  | index + 1 => (Source.next (behind text index)).2

/-- The token at this index, or its fault; behind the last one there are only ends. -/
def tokenAt (text : List Char) (index : Nat) : Except Fault Token := (Source.next (behind text index)).1

theorem all_behind {tokens : List Token} (lexed : all text = .ok tokens) (index : Nat) :
    all (behind text index) = .ok (tokens.drop index) := by
  induction index with
  | zero => exact lexed
  | succ index ih =>
    obtain ⟨rest, found, remaining⟩ := next_of_all ih
    rw [behind, found, remaining, List.tail_drop]

theorem tokenAt_of_all {tokens : List Token} (lexed : all text = .ok tokens) (index : Nat) :
    tokenAt text index = .ok (tokens.getD index .eof) := by
  obtain ⟨rest, found, -⟩ := next_of_all (all_behind lexed index)
  rw [tokenAt, found, List.headD_eq_head?_getD, List.head?_drop, List.getD_eq_getElem?_getD]

/-- The reader looks at two tokens of the text that follow each other. -/
structure Window (text : List Char) (index : Nat) (reader : Reader) : Prop where
  current : tokenAt text index = .ok reader.current
  following : tokenAt text (index + 1) = .ok reader.following
  unread : behind text (index + 2) = reader.unread

theorem window_of_ofSource (opened : Lookahead.ofSource text = .ok reader) : Window text 0 reader := by
  obtain ⟨unread, found, -, found', -⟩ := ofSource_eq_ok.mp opened
  have rest : behind text 1 = unread := congrArg Prod.snd found
  refine ⟨congrArg Prod.fst found, ?_, ?_⟩
  · rw [tokenAt, rest, found']
  · rw [behind, rest, found']

theorem advance_window (text : List Char) (least : Nat) :
    Steady (fun reader => ∃ index ≥ least, Window text index reader) (origin · = .token) advance := by
  rintro before ⟨index, far, window⟩
  rw [outcome_advance]
  rcases found : Source.next before.unread with ⟨fault | token, rest⟩
  · exact .inr ⟨fault, rfl, Faults.next_error found⟩
  · have next : Source.next (behind text (index + 2)) = (.ok token, rest) := window.unread ▸ found
    exact .inl ⟨index + 1, Nat.le_succ_of_le far, window.following, congrArg Prod.fst next, congrArg Prod.snd next⟩

def Refuses (reader : Reader) : Prop := ∃ failure, reader.expression.1 = .error failure ∧ origin failure.fault = .token

theorem expression_window {index : Nat} (window : Window text index before) (accepted : ¬ Refuses before) :
    ∃ index' ≥ index, Window text index' before.expression.2 := by
  rw [expression_after]
  obtain held | ⟨fault, failed, token⟩ :=
    whole_steady (advance_window text index) before ⟨index, Nat.le_refl index, window⟩
  · exact held
  · have answered := expression_of_error (Prod.ext failed rfl)
    exact absurd ⟨_, congrArg Prod.fst answered, token⟩ accepted

/-- Until a token is refused the reader looks at two neighbours, and never goes back to earlier ones. -/
theorem exists_windows (opened : Lookahead.ofSource text = .ok reader) :
    ∃ index : Nat → Nat, index 0 = 0 ∧ Monotone index ∧ ∀ calls,
      (∀ earlier < calls, ¬ Refuses (called reader earlier)) →
        Window text (index calls) (called reader calls) := by
  have moves (calls index : Nat) : ∃ index' ≥ index, Window text index (called reader calls) →
      ¬ Refuses (called reader calls) →
      Window text index' (called reader (calls + 1)) := by
    by_cases window : Window text index (called reader calls)
    · by_cases accepted : Refuses (called reader calls)
      · exact ⟨index, Nat.le_refl _, fun _ refuted => absurd accepted refuted⟩
      · obtain ⟨index', far, window'⟩ := expression_window window accepted
        exact ⟨index', far, fun _ _ => window'⟩
    · exact ⟨index, Nat.le_refl _, fun held => absurd held window⟩
  choose next far moves using moves
  refine ⟨Nat.rec 0 next, rfl, monotone_nat_of_le_succ fun calls => far calls _, fun calls accepted => ?_⟩
  induction calls with
  | zero => exact window_of_ofSource opened
  | succ calls ih =>
    exact moves calls _ (ih fun earlier less => accepted earlier (Nat.lt_succ_of_lt less)) (accepted calls (Nat.lt_succ_self calls))

end Windows

section Finish

def Finished (reader : Reader) : Prop := reader.following = .eof → reader.unread = []

theorem advance_finished : Steady Finished Never advance := by
  intro before finished
  left
  rw [outcome_advance]
  rcases found : Source.next before.unread with ⟨fault | token, rest⟩
  · intro ends
    have ended : Source.next ([] : List Char) = (.ok .eof, []) := rfl
    rw [finished ends] at found
    cases ended.symm.trans found
  · rintro rfl
    exact (readSolid_end found).2

theorem finished_of_ofSource (opened : Lookahead.ofSource text = .ok reader) : Finished reader := by
  obtain ⟨unread, -, -, found, -⟩ := ofSource_eq_ok.mp opened
  intro ends
  rw [ends] at found
  exact (readSolid_end found).2

/-- The reader looks at the last token of an operand, behind which the text has ended. -/
structure AtEnd (text : List Char) (reader : Reader) : Prop where
  length : reader.length = text.length
  unread : reader.unread = []
  following : reader.following = .eof
  closed : closes reader.current = true

theorem atEnd_of_yields {tree : Expression} (reads : Reads text before) (finished : Finished before)
    (yields : Yields whole before tree after) : AtEnd text after := by
  have settled : GrammarSoundness.Settled before := fun ends => by rw [finished ends, TextCuts.all_nil]
  obtain ⟨tokens, ⟨levels, derives⟩, -, last, following⟩ := GrammarSoundness.whole_sound settled yields
  obtain ⟨front, token, rfl, closed⟩ := derives_closes derives
  obtain rfl : token = after.current := by simpa using last
  have finished' := (whole_steady advance_finished).after finished
  have reads' := whole_reads reads
  rw [yields] at finished' reads'
  exact ⟨reads'.length, finished' following, following, closed⟩

def lastAnswer (last : Token) (length : Nat) : Except Failure Expression :=
  match last with
  | .number value => .ok (.literal value)
  | _ => .error ⟨.unexpectedStart "RightParenthesis", some length⟩

section Last
variable {room : Nat} {precedence : Precedence} {value : Number}

theorem operand_number (current : reader.current = .number value) (following : reader.following = .eof) :
    outcome (operand (room + 1) precedence) reader = (.ok ⟨.literal value, 1⟩, reader) := by
  have first : Yields (primary (operand room)) reader ⟨.literal value, 1⟩ reader := by
    rw [primary, yields_get_bind, current, yields_pure]
    exact ⟨rfl, rfl⟩
  rw [operand, first.outcome_bind, outcome_roundLimit_bind]
  exact chain_ended following _

theorem operand_closing (current : reader.current = .rightParenthesis) :
    outcome (operand (room + 1) precedence) reader = (.error (.unexpectedStart "RightParenthesis"), reader) := by
  have first : outcome (primary (operand room)) reader = (.error (.unexpectedStart "RightParenthesis"), reader) := by
    rw [primary, outcome_get_bind, current]
    rfl
  rw [operand, outcome_bind_of_error first]

end Last

theorem expression_atEnd (ends : AtEnd text reader) : reader.expression = (lastAnswer reader.current text.length, reader) := by
  have closed := ends.closed
  cases current : reader.current with
  | number value =>
    have taken : Yields (operand maxDepth .lowest) reader ⟨.literal value, 1⟩ reader := operand_number current ends.following
    have ran : Yields whole reader (.literal value) reader := by
      refine taken.bind ?_
      rw [yields_get_bind, ends.following]
      exact yields_pure.mpr ⟨rfl, rfl⟩
    exact expression_of_yields ran
  | rightParenthesis =>
    have position : reader.position = text.length := by
      rw [Lookahead.position, ends.unread, ends.length]
      rfl
    have refused : outcome (operand maxDepth .lowest) reader = (.error (.unexpectedStart "RightParenthesis"), reader) :=
      operand_closing current
    have ran : outcome whole reader = (.error (.unexpectedStart "RightParenthesis"), reader) := outcome_bind_of_error refused
    rw [expression_of_error ran, position]
    rfl
  | _ => simp [current, closes] at closed

/-- From the end of the text no call moves on. -/
theorem called_atEnd {calls : Nat} (ends : AtEnd text (called reader calls)) {later : Nat}
    (after : calls ≤ later) :
    called reader later = called reader calls := by
  induction later, after using Nat.le_induction with
  | base => rfl
  | succ later _ ih => rw [called, ih, expression_atEnd ends]

end Finish

/-- What holds of a reader of a text however often it is called. -/
structure Reusable (text : String) (reader : Reader) : Prop where
  ends : ∀ spent calls, CallEnds spent reader calls
  inside : ∀ calls, (called reader calls).position ≤ text.length
  onward : Monotone fun calls => (called reader calls).position
  sequence : ∀ tokens, all text.toList = .ok tokens → ∀ index, tokenAt text.toList index = .ok (tokens.getD index .eof)
  window : ∃ index : Nat → Nat, index 0 = 0 ∧ Monotone index ∧ ∀ calls,
    (∀ earlier < calls, ¬ Refuses (called reader earlier)) → Window text.toList (index calls) (called reader calls)
  settled : ∀ calls tree, (called reader calls).expression.1 = .ok tree → ∀ later > calls,
    called reader later = called reader (calls + 1) ∧
      (called reader later).expression = (lastAnswer (called reader (calls + 1)).current text.length, called reader later)

/-- Every call ends of itself with no operand left counted. A reader never goes back in its text, looks at neighbouring tokens
of it until one is refused, and stays where it is once it has been read, at the last token. -/
theorem reusable_of_ofText : ∀ (text : String) (reader : Reader), Reader.ofText text = .ok reader → Reusable text reader := by
  intro text reader opened
  have reads (calls : Nat) : Reads text.toList (called reader calls) :=
    called_steady (advance_reads text.toList) (reads_of_ofSource opened) calls
  refine ⟨fun spent calls => call_ends spent reader calls, fun calls => ?_, monotone_nat_of_le_succ fun calls => ?_,
    fun tokens => tokenAt_of_all, exists_windows opened, fun calls tree read later behind => ?_⟩
  · rw [← String.length_toList]
    exact position_le (reads calls)
  · rw [called, expression_after]
    exact (whole_steady (advance_position _)).after (Nat.le_refl _)
  · have finished := called_steady advance_finished (finished_of_ofSource opened) calls
    obtain ⟨after, ran⟩ := yields_of_expression read
    have atEnd : AtEnd text.toList (called reader (calls + 1)) := by
      rw [called, expression_after, ran]
      exact atEnd_of_yields (reads calls) finished ran
    have same := called_atEnd atEnd behind
    rw [same, expression_atEnd atEnd, String.length_toList]
    exact ⟨rfl, rfl⟩

/-- The name is refused, and the sign before it is looked at twice. -/
theorem reusable_of_ofText_refused :
    ∃ reader, Reader.ofText "1 - d 2" = .ok reader ∧ Reusable "1 - d 2" reader ∧
      reader.expression.1 = .error ⟨.unknownName "d", some 5⟩ ∧
      (called reader 1).expression.1 = .ok (.signed .minus (.signed .minus (.literal (.int 2)))) ∧
      ∀ later > 1, (called reader later).expression.1 = .ok (.literal (.int 2)) := by
  obtain ⟨reader, opened, refused, again, last⟩ : ∃ reader, Reader.ofText "1 - d 2" = .ok reader ∧
      reader.expression.1 = .error ⟨.unknownName "d", some 5⟩ ∧
      (called reader 1).expression.1 = .ok (.signed .minus (.signed .minus (.literal (.int 2)))) ∧
      (called reader 2).current = .number (.int 2) :=
    ⟨⟨7, [' ', 'd', ' ', '2'], .number (.int 1), .minus⟩, rfl, rfl, rfl, rfl⟩
  have reusable := reusable_of_ofText _ reader opened
  refine ⟨reader, opened, reusable, refused, again, fun later behind => ?_⟩
  obtain ⟨-, answers⟩ := reusable.settled 1 _ again later behind
  rw [answers, last]
  rfl

end DiceNotation.Proofs.RepeatedReading

import DiceNotation.Proofs.ParallelReadings
import DiceNotation.Proofs.TextCuts

/-! The place of a fault is where it was decided. What has been read of a text depends on the characters before that place
and on the one that stands there, so a text that goes on in another way behind it has the same fault at the same place. -/

namespace DiceNotation.Proofs.FaultPlaces
open Token Lookahead Reading Rounds ParallelReadings TextCuts
open Expression (Fault)

variable {front common rest rest' : List Char}

section Tokens

theorem head_congr (front : List Char) (same : rest'.head? = rest.head?) : (front ++ rest').head? = (front ++ rest).head? := by
  rw [List.head?_append, List.head?_append, same]

private theorem run_congr {p : Char → Bool} (text : List Char) (same : rest'.head? = (text.dropWhile p).head?) :
    (text.takeWhile p ++ rest').takeWhile p = text.takeWhile p ∧ (text.takeWhile p ++ rest').dropWhile p = rest' := by
  have run : ∀ c ∈ text.takeWhile p, p c = true := fun c => List.mem_takeWhile_imp
  rw [List.takeWhile_append_of_pos run, List.dropWhile_append_of_pos run]
  cases rest' with
  | nil => simp
  | cons c others =>
    have stops := List.head?_dropWhile_not p text
    rw [← same] at stops
    have stops : p c = false := by simpa using stops
    simp [stops]

/-- What is read is decided by its own characters and the one behind them. -/
def Local (read : List Char → Except Fault Token × List Char) (text : List Char) : Prop :=
  ∃ lexeme, text = lexeme ++ (read text).2 ∧
    ∀ rest', rest'.head? = (read text).2.head? → read (lexeme ++ rest') = ((read text).1, rest')

private theorem readNumber_local (text : List Char) : Local readNumber text := by
  have whole : text.takeWhile Char.isDigit ++ text.dropWhile Char.isDigit = text := List.takeWhile_append_dropWhile
  by_cases point : (text.dropWhile Char.isDigit).head? = some '.'
  · obtain ⟨afterPoint, after⟩ := List.head?_eq_some_iff.mp point
    have read : readNumber text = (ofDecimal (text.takeWhile Char.isDigit) (afterPoint.takeWhile Char.isDigit),
        afterPoint.dropWhile Char.isDigit) := by
      simp only [readNumber, after]
    refine ⟨text.takeWhile Char.isDigit ++ '.' :: afterPoint.takeWhile Char.isDigit, ?_, fun rest' same => ?_⟩
    · rw [read, List.append_assoc, List.cons_append, List.takeWhile_append_dropWhile, ← after, whole]
    · rw [read] at same ⊢
      obtain ⟨places, remaining⟩ := run_congr afterPoint same
      have begins : ('.' :: (afterPoint.takeWhile Char.isDigit ++ rest')).head? = (text.dropWhile Char.isDigit).head? := by
        rw [after]
        rfl
      obtain ⟨digits, behind⟩ := run_congr text begins
      rw [List.append_assoc, List.cons_append, readNumber, digits, behind]
      simp only [places, remaining]
  · have read {text : List Char} (other : (text.dropWhile Char.isDigit).head? ≠ some '.') :
        readNumber text = (ofDigits (text.takeWhile Char.isDigit), text.dropWhile Char.isDigit) := by
      rw [readNumber]
      split
      next afterPoint after => exact absurd (congrArg List.head? after) other
      next => rfl
    rw [Local, read point]
    refine ⟨text.takeWhile Char.isDigit, whole.symm, fun rest' same => ?_⟩
    obtain ⟨digits, remaining⟩ := run_congr text same
    rw [read (by rwa [remaining, same]), digits, remaining]

private theorem readName_local (text : List Char) : Local readName text := by
  refine ⟨text.takeWhile isNamePart, List.takeWhile_append_dropWhile.symm, fun rest' same => ?_⟩
  obtain ⟨letters, remaining⟩ := run_congr text same
  rw [readName, readName, letters, remaining]

private theorem Local.of_word {c : Char} {read : List Char → Except Fault Token × List Char} {text : List Char}
    (word : ∀ others, readSolid (c :: others) = read (c :: others)) (reads : Local read (c :: text)) :
    Local readSolid (c :: text) := by
  obtain ⟨lexeme, whole, again⟩ := reads
  rw [Local, word]
  refine ⟨lexeme, whole, fun rest' same => ?_⟩
  have head := head_congr lexeme same
  rw [← whole] at head
  obtain ⟨others, begins⟩ := List.head?_eq_some_iff.mp head
  rw [begins, word, ← begins, again rest' same]

private theorem readSolid_local (text : List Char) : Local readSolid text := by
  fun_cases readSolid text with
  | case1 => exact ⟨[], rfl, fun rest' same => by simp_all [readSolid]⟩
  | case5 rest => exact ⟨['/', '/'], rfl, fun rest' same => rfl⟩
  | case6 rest single =>
    have read {rest : List Char} (other : rest.head? ≠ some '/') : readSolid ('/' :: rest) = (.ok .divide, rest) := by
      cases rest <;> simp_all [readSolid]
    have other : rest.head? ≠ some '/' := by
      rintro head
      obtain ⟨others, rfl⟩ := List.head?_eq_some_iff.mp head
      exact single others rfl
    rw [Local, read other]
    exact ⟨['/'], rfl, fun rest' same => read (same ▸ other)⟩
  | case10 c rest _ _ _ _ _ _ _ _ number =>
    have word : isWordPart c = true := by
      rcases Bool.or_eq_true_iff.mp number with digit | point
      · exact digit_word digit
      · simp [isWordPart, point]
    exact .of_word (fun others => (readSolid_word word).trans (if_pos number)) (readNumber_local _)
  | case11 c rest _ _ _ _ _ _ _ _ number name =>
    have word : isWordPart c = true := name_word (TokenSequence.namePart_of_start name)
    exact .of_word (fun others => (readSolid_word word).trans (if_neg number)) (readName_local _)
  | case12 c rest _ _ _ _ _ _ _ _ number name =>
    have read (others : List Char) : readSolid (c :: others) = (.error (.invalidCharacter c), c :: others) := by
      simp_all [readSolid]
    rw [Local, read]
    refine ⟨[], rfl, fun rest' same => ?_⟩
    obtain ⟨others, rfl⟩ := List.head?_eq_some_iff.mp same
    exact read others
  | _ => exact ⟨[_], rfl, fun rest' same => rfl⟩

theorem next_local (text : List Char) : Local Source.next text := by
  obtain ⟨lexeme, whole, again⟩ := readSolid_local (text.dropWhile Text.isBlank)
  refine ⟨text.takeWhile Text.isBlank ++ lexeme, ?_, fun rest' same => ?_⟩
  · rw [List.append_assoc]
    exact (List.takeWhile_append_dropWhile.symm).trans (congrArg _ whole)
  · have head := head_congr lexeme same
    obtain ⟨-, solid⟩ := run_congr text (head.trans (congrArg List.head? whole.symm))
    change readSolid ((text.takeWhile Text.isBlank ++ lexeme ++ rest').dropWhile Text.isBlank) = _
    rw [List.append_assoc, solid]
    exact again rest' same

theorem next_suffix (text : List Char) : (Source.next text).2 <:+ text := by
  obtain ⟨lexeme, whole, -⟩ := next_local text
  exact ⟨lexeme, whole.symm⟩

/-- A text is read in the same way up to a rest that begins with the same character. -/
theorem next_congr (same : rest'.head? = rest.head?) {answer : Except Fault Token}
    (found : Source.next (front ++ rest) = (answer, common ++ rest)) :
    Source.next (front ++ rest') = (answer, common ++ rest') := by
  obtain ⟨lexeme, whole, again⟩ := next_local (front ++ rest)
  rw [found] at whole again
  obtain rfl : front = lexeme ++ common := by simpa [← List.append_assoc] using whole
  rw [List.append_assoc]
  exact again _ (head_congr common same)

end Tokens

section Readers
variable {before before' after : Reader}

/-- Two readers that look at the same tokens, and have the same before them up to the two rests. -/
structure Abreast (rest rest' : List Char) (before before' : Reader) : Prop where
  current : before'.current = before.current
  following : before'.following = before.following
  unread : ∃ common, before.unread = common ++ rest ∧ before'.unread = common ++ rest'

def Before (rest : List Char) (reader : Reader) : Prop := rest <:+ reader.unread

theorem advance_unread (before : Reader) : (outcome advance before).2.unread = (Source.next before.unread).2 := by
  rw [outcome_advance]
  rcases Source.next before.unread with ⟨fault | token, unread⟩ <;> rfl

theorem advance_length (before : Reader) : (outcome advance before).2.length = before.length := by
  rw [outcome_advance]
  rcases Source.next before.unread with ⟨fault | token, unread⟩ <;> rfl

theorem advance_abreast (same : rest'.head? = rest.head?) :
    Follows (Abreast rest rest') (Before rest) (advance : Reading (List Char) Unit) advance where
  back before inside := by
    rw [Before, advance_unread] at inside
    exact inside.trans (next_suffix before.unread)
  same := by
    rintro before before' ⟨current, following, front, unread, unread'⟩ inside
    rw [Before, advance_unread] at inside
    obtain ⟨common, remaining⟩ := inside
    have found : Source.next (front ++ rest) = ((Source.next before.unread).1, common ++ rest) := by
      rw [← unread, remaining]
    have found' := next_congr same found
    rw [← unread] at found
    rw [← unread'] at found'
    rw [outcome_advance, outcome_advance, found, found']
    cases (Source.next before.unread).1 with
    | ok token => exact ⟨rfl, following, rfl, common, rfl, rfl⟩
    | error fault => exact ⟨rfl, following, following, common, rfl, rfl⟩

/-- What has not been read of a text is the end of it. -/
structure Reads (text : List Char) (reader : Reader) : Prop where
  length : reader.length = text.length
  unread : reader.unread <:+ text

theorem Reads.position {front : List Char} (reads : Reads (front ++ before.unread) before) : before.position = front.length := by
  rw [Lookahead.position, reads.length, List.length_append]
  exact Nat.add_sub_cancel ..

theorem advance_reads (text : List Char) : Steady (Reads text) Never (advance : Reading (List Char) Unit) := by
  intro before reads
  left
  refine ⟨(advance_length before).trans reads.length, ?_⟩
  rw [advance_unread]
  exact (next_suffix before.unread).trans reads.unread

theorem reads_of_ofSource {text : List Char} (opened : Lookahead.ofSource text = .ok before) : Reads text before := by
  obtain ⟨unread, found, -, found', length⟩ := ofSource_eq_ok.mp opened
  have first := next_suffix text
  have second := next_suffix unread
  rw [found] at first
  rw [found'] at second
  exact ⟨length, second.trans first⟩

theorem whole_reads {text : List Char} (reads : Reads text before) : Reads text (outcome whole before).2 :=
  (whole_steady (advance_reads text)).after reads

theorem abreast_of_ofSource (same : rest'.head? = rest.head?) (opened : Lookahead.ofSource (front ++ rest) = .ok before)
    (inside : Before rest before) :
    ∃ before', Lookahead.ofSource (front ++ rest') = .ok before' ∧ Abreast rest rest' before before' := by
  obtain ⟨unread, found, proper, found', -⟩ := ofSource_eq_ok.mp opened
  obtain ⟨common', remaining'⟩ := inside
  have second := next_suffix unread
  rw [found'] at second
  obtain ⟨common, rfl⟩ : rest <:+ unread := (remaining' ▸ List.suffix_append common' rest).trans second
  rw [← remaining'] at found'
  refine ⟨⟨(front ++ rest').length, common' ++ rest', before.current, before.following⟩, ?_, rfl, rfl, common', remaining'.symm, rfl⟩
  exact ofSource_eq_ok.mpr ⟨_, next_congr same found, proper, next_congr same found', rfl⟩

end Readers

section Texts
variable {text : String} {fault : Fault} {place : Nat}

/-- Faults have a place if they come up after the reader has been opened. -/
theorem ofText_placed : Expression.ofText text = .error ⟨fault, some place⟩ ↔
    ∃ reader after, Lookahead.ofSource text.toList = .ok reader ∧ outcome whole reader = (.error fault, after) ∧
      after.position = place := by
  rw [Expression.ofText, Expression.ofSource]
  cases Lookahead.ofSource text.toList with
  | error fault => simp
  | ok reader =>
    rcases ran : outcome whole reader with ⟨fault | tree, after⟩
    · simp [expression_of_error ran, ran, and_assoc]
    · simp [expression_of_yields ran, ran]

theorem exists_append_of_agree {front rest other : List Char}
    (agree : ∀ index ≤ front.length, (front ++ rest)[index]? = other[index]?) :
    ∃ rest', other = front ++ rest' ∧ rest'.head? = rest.head? := by
  induction front generalizing other with
  | nil =>
    have first := agree 0 (Nat.le_refl _)
    rw [List.nil_append, ← List.head?_eq_getElem?, ← List.head?_eq_getElem?] at first
    exact ⟨other, rfl, first.symm⟩
  | cons c front ih =>
    have first := agree 0 (Nat.zero_le _)
    rw [← List.head?_eq_getElem?, ← List.head?_eq_getElem?] at first
    obtain ⟨others, rfl⟩ := List.head?_eq_some_iff.mp first.symm
    obtain ⟨rest', rfl, same⟩ := ih fun index inside => by
      simpa using agree (index + 1) (Nat.succ_le_succ inside)
    exact ⟨rest', rfl, same⟩

/-- A fault is decided by the characters before its place and the one that stands there, or by the end of the text there. -/
theorem fault_at_place : ∀ (text : String) (fault : Fault) (place : Nat),
    Expression.ofText text = .error ⟨fault, some place⟩ → place ≤ text.length ∧
      ∀ other : String, (∀ index ≤ place, text.toList[index]? = other.toList[index]?) →
        Expression.ofText other = .error ⟨fault, some place⟩ := by
  intro text fault place failed
  obtain ⟨reader, after, opened, ran, rfl⟩ := ofText_placed.mp failed
  have reads := whole_reads (reads_of_ofSource opened)
  rw [ran] at reads
  obtain ⟨front, whole⟩ := reads.unread
  have position : after.position = front.length := (whole ▸ reads : Reads (front ++ after.unread) after).position
  rw [position]
  refine ⟨?_, fun other agree => ?_⟩
  · rw [← String.length_toList, ← whole, List.length_append]
    exact Nat.le_add_right _ _
  · obtain ⟨rest', whole', same⟩ := exists_append_of_agree (whole ▸ agree)
    have follows := whole_follows (fun _ _ side => ⟨side.current, side.following⟩) (advance_abreast same)
    have inside : Before after.unread (outcome Lookahead.whole reader).2 := by
      rw [ran]
      exact List.suffix_rfl
    obtain ⟨reader', opened', side⟩ := abreast_of_ofSource same (whole ▸ opened) (follows.back reader inside)
    have same := follows.same reader reader' side inside
    have reads' := whole_reads (reads_of_ofSource opened')
    rcases ran' : outcome Lookahead.whole reader' with ⟨answer, after'⟩
    rw [ran, ran'] at same
    rw [ran'] at reads'
    obtain ⟨rfl, -, -, common, here, there⟩ := same
    obtain rfl : common = [] := by simpa using here
    rw [List.nil_append] at there
    refine ofText_placed.mpr ⟨reader', after', whole' ▸ opened', ran', ?_⟩
    exact (there ▸ reads' : Reads (front ++ after'.unread) after').position

/-- A text that goes on in another way behind the character that was refused. -/
theorem fault_at_place_later :
    Expression.ofText "1 +\t$" = .error ⟨.invalidCharacter '$', some 4⟩ ∧ 4 ≤ "1 +\t$".length ∧
    (∀ index ≤ 4, "1 +\t$".toList[index]? = "1 +\t$2 //".toList[index]?) ∧
    Expression.ofText "1 +\t$2 //" = .error ⟨.invalidCharacter '$', some 4⟩ := by
  have failed : Expression.ofText "1 +\t$" = .error ⟨.invalidCharacter '$', some 4⟩ := rfl
  have agree : ∀ index ≤ 4, "1 +\t$".toList[index]? = "1 +\t$2 //".toList[index]? := by decide
  obtain ⟨inside, again⟩ := fault_at_place _ _ _ failed
  exact ⟨failed, inside, agree, again _ agree⟩

end Texts

end DiceNotation.Proofs.FaultPlaces

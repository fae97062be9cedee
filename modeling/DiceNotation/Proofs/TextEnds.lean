import DiceNotation.Proofs.Neighbours
import DiceNotation.Proofs.TextCuts

/-! What the first and the last character of a text say about its first and its last token. -/

namespace DiceNotation.Proofs.TextEnds
open Token TokenSequence TextCuts Neighbours

variable {text rest : List Char} {token : Token} {tokens : List Token} {c : Char}

private theorem readNumber_ok (read : readNumber text = (.ok token, rest)) : isNumber token = true := by
  simp only [readNumber, ofDecimal, ofDigits] at read
  split at read <;> split at read <;> cases read <;> rfl

private theorem readNumber_whole (read : readNumber text = (.ok token, [])) : ∀ c ∈ text, isWordPart c = true := by
  have digits {text : List Char} {c : Char} (member : c ∈ text.takeWhile Char.isDigit) : isWordPart c = true :=
    digit_word (List.mem_takeWhile_imp member)
  intro c member
  have whole : text.takeWhile Char.isDigit ++ text.dropWhile Char.isDigit = text := List.takeWhile_append_dropWhile
  rw [← whole, List.mem_append] at member
  rcases member with before | behind
  · exact digits before
  · rw [readNumber] at read
    split at read
    next afterPoint remaining =>
      have all : afterPoint.dropWhile Char.isDigit = [] := congrArg Prod.snd read
      rw [remaining] at behind
      rcases List.mem_cons.mp behind with rfl | place
      · rfl
      · exact digit_word (List.dropWhile_eq_nil_iff.mp all c place)
    next =>
      have all : text.dropWhile Char.isDigit = [] := congrArg Prod.snd read
      rw [all] at behind
      contradiction

private theorem readName_whole (read : readName text = (.ok token, [])) :
    ends token = true ∧ ∀ c ∈ text, isWordPart c = true := by
  have all : text.dropWhile isNamePart = [] := congrArg Prod.snd read
  refine ⟨?_, fun c member => name_word (List.dropWhile_eq_nil_iff.mp all c member)⟩
  have name : ofName (String.ofList (text.takeWhile isNamePart)) = .ok token := congrArg Prod.fst read
  rw [ofName] at name
  split at name <;> cases name
  rfl

private theorem number_ends (number : isNumber token = true) : ends token = true := by
  cases token <;> simp_all [isNumber, ends]

private theorem readSolid_whole (read : readSolid text = (.ok token, [])) (last : text.getLast? = some c) :
    ends token = true ↔ isWordPart c = true ∨ c = ')' := by
  revert read
  have member := List.mem_of_getLast? last
  fun_cases readSolid text with
  | case1 => simp at last
  | case10 =>
    intro read
    exact iff_of_true (number_ends (readNumber_ok read)) (.inl (readNumber_whole read c member))
  | case11 =>
    intro read
    exact iff_of_true (readName_whole read).1 (.inl ((readName_whole read).2 c member))
  | case12 => simp
  | _ =>
    rintro ⟨⟩
    obtain rfl : _ = c := by simpa using last
    decide

private theorem suffix_last (part : rest <:+ text) (more : rest ≠ []) : rest.getLast? = text.getLast? := by
  obtain ⟨front, rfl⟩ := part
  rw [List.getLast?_append, List.getLast?_eq_some_getLast more, Option.some_or]

theorem last_token (lexed : all text = .ok tokens) (last : text.getLast? = some c) (solid : Text.isBlank c = false) :
    ∃ front token, tokens = front ++ [token] ∧ (ends token = true ↔ isWordPart c = true ∨ c = ')') := by
  induction size : text.length using Nat.strong_induction_on generalizing text tokens with
  | _ size ih =>
    have more : text.dropWhile Text.isBlank ≠ [] := by
      intro blank
      have := List.dropWhile_eq_nil_iff.mp blank c (List.mem_of_getLast? last)
      simp [solid] at this
    have last' := (suffix_last (List.dropWhile_suffix _) more).trans last
    obtain ⟨rest, found, -⟩ | ⟨token, rest, others, found, proper, remaining, rfl⟩ := all_cases lexed
    · exact absurd (readSolid_end found).1 more
    · cases rest with
      | nil =>
        obtain rfl := Except.ok.inj (all_nil.symm.trans remaining)
        exact ⟨[], token, rfl, readSolid_whole found last'⟩
      | cons next behind =>
        have shorter := LawfulSource.shorter found proper
        have part : next :: behind <:+ text.dropWhile Text.isBlank := by
          have := readSolid_suffix (text.dropWhile Text.isBlank)
          rwa [show readSolid _ = (_, next :: behind) from found] at this
        have last'' := (suffix_last part (by simp)).trans last'
        obtain ⟨front, final, rfl, shows⟩ := ih _ (size ▸ shorter) remaining last'' rfl
        exact ⟨token :: front, final, rfl, shows⟩

theorem first_number (lexed : all (c :: text) = .ok tokens) (begins : c.isDigit = true ∨ c = '.') :
    ∃ first others, tokens = first :: others ∧ isNumber first = true := by
  have word : isWordPart c = true := by
    rcases begins with digit | rfl
    · exact digit_word digit
    · rfl
  have next : Source.next (c :: text) = readNumber (c :: text) := by
    change readSolid ((c :: text).dropWhile Text.isBlank) = _
    rw [List.dropWhile_cons_of_neg (by simp [isBlank_of_word word]), readSolid_word word, if_pos (by simpa using begins)]
  obtain ⟨rest, found, -⟩ | ⟨token, rest, others, found, -, -, rfl⟩ := all_cases lexed
  · have number := readNumber_ok (next.symm.trans found)
    contradiction
  · exact ⟨token, others, rfl, readNumber_ok (next.symm.trans found)⟩

end DiceNotation.Proofs.TextEnds

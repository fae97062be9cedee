import DiceNotation.Expression.Reader
import Mathlib.Data.List.TakeWhile

/-! The tokens of a whole source, and how those of a text follow from its parts. A text may be cut
wherever no token goes on over the cut. -/

namespace DiceNotation.Proofs.TokenSequence
open Token
open Expression (Fault)

/-- A source whose tokens come to an end, after which it stays. -/
class LawfulSource (σ : Type) [Source σ] : Prop where
  shrinks : ∀ (source : σ), Source.size (Source.next source).2 ≤ Source.size source
  shorter : ∀ {source rest : σ} {token : Token}, Source.next source = (.ok token, rest) → token ≠ .eof →
    Source.size rest < Source.size source
  ended : ∀ {source rest : σ}, Source.next source = (.ok .eof, rest) → Source.next rest = (.ok .eof, rest)

private theorem dropWhile_length (p : Char → Bool) (text : List Char) : (text.dropWhile p).length ≤ text.length :=
  (List.dropWhile_sublist p).length_le

private theorem readNumber_length {c : Char} (text : List Char) (begins : (c.isDigit || c == '.') = true) :
    (readNumber (c :: text)).2.length ≤ text.length := by
  have digits := dropWhile_length Char.isDigit text
  by_cases digit : c.isDigit = true
  · simp only [readNumber, List.dropWhile_cons, digit, if_true]
    split
    next afterPoint remaining =>
      have places := dropWhile_length Char.isDigit afterPoint
      rw [remaining, List.length_cons] at digits
      exact places.trans (Nat.le_of_succ_le digits)
    next => exact digits
  · have point : c = '.' := by simpa [digit] using begins
    subst point
    exact digits

theorem namePart_of_start {c : Char} (start : isNameStart c = true) : isNamePart c = true := by
  simp only [isNameStart, isNamePart, Char.isAlphanum, Bool.or_eq_true] at start ⊢
  exact start.imp_right Or.inl

private theorem readName_length {c : Char} (text : List Char) (begins : isNameStart c = true) :
    (readName (c :: text)).2.length ≤ text.length := by
  simp only [readName, List.dropWhile_cons, namePart_of_start begins, if_true]
  exact dropWhile_length isNamePart text

private theorem readSolid_length (text : List Char) :
    (readSolid text).2.length ≤ text.length ∧
      ∀ token, (readSolid text).1 = .ok token → token ≠ .eof → (readSolid text).2.length < text.length := by
  fun_cases readSolid text with
  | case1 => simp
  | case10 c rest _ _ _ _ _ _ _ _ number =>
    have shorter := readNumber_length rest number
    simp only [List.length_cons]
    exact ⟨by omega, fun _ _ _ => by omega⟩
  | case11 c rest _ _ _ _ _ _ _ _ _ name =>
    have shorter := readName_length rest name
    simp only [List.length_cons]
    exact ⟨by omega, fun _ _ _ => by omega⟩
  | case12 => simp
  | _ => simp <;> omega

private theorem readName_end (text rest : List Char) : readName text ≠ (.ok .eof, rest) := by
  simp only [readName, ofName]
  split <;> simp

private theorem readNumber_end (text rest : List Char) : readNumber text ≠ (.ok .eof, rest) := by
  simp only [readNumber, ofDecimal, ofDigits]
  split <;> split <;> simp

/-- A text ends where only blanks are left of it. -/
theorem readSolid_end {text rest : List Char} (ends : readSolid text = (.ok .eof, rest)) : text = [] ∧ rest = [] := by
  revert ends
  fun_cases readSolid text with
  | case1 => simp
  | case10 => exact fun ends => absurd ends (readNumber_end _ _)
  | case11 => exact fun ends => absurd ends (readName_end _ _)
  | _ => simp

instance : LawfulSource (List Char) where
  shrinks text := ((readSolid_length _).1).trans (dropWhile_length _ _)
  shorter := by
    intro text rest token found proper
    have solid := (readSolid_length (text.dropWhile Text.isBlank)).2 token (congrArg Prod.fst found) proper
    have blanks := dropWhile_length Text.isBlank text
    have left : (readSolid (text.dropWhile Text.isBlank)).2 = rest := congrArg Prod.snd found
    rw [left] at solid
    exact Nat.lt_of_lt_of_le solid blanks
  ended := by
    intro text rest found
    obtain ⟨-, rfl⟩ := readSolid_end found
    rfl

instance : LawfulSource (List Token) where
  shrinks tokens := by
    fun_cases pop tokens <;> simp [Source.next, Source.size, pop, *]
  shorter := by
    intro tokens rest token found proper
    simp only [Source.next, Source.size] at found ⊢
    revert found
    fun_cases pop tokens with
    | case1 => rintro ⟨⟩; contradiction
    | case2 => rintro ⟨⟩; contradiction
    | case3 => rintro ⟨⟩; simp
  ended := by
    intro tokens rest found
    simp only [Source.next] at found ⊢
    revert found
    fun_cases pop tokens with
    | case1 => rintro ⟨⟩; rfl
    | case2 => rintro ⟨⟩; rfl
    | case3 first rest proper => rintro ⟨⟩; exact absurd rfl proper

def isEnd : Token → Bool
  | .eof => true
  | _ => false

theorem isEnd_iff {token : Token} : isEnd token = true ↔ token = .eof := by
  cases token <;> simp [isEnd]

def all {σ : Type} [Source σ] [LawfulSource σ] (source : σ) : Except Fault (List Token) :=
  match _found : Source.next source with
  | (.error fault, _) => .error fault
  | (.ok token, rest) => if _ends : isEnd token then .ok [] else (all rest).map (token :: ·)
termination_by Source.size source
decreasing_by exact LawfulSource.shorter _found (mt isEnd_iff.mpr _ends)

section Sources
variable {σ : Type} [Source σ] [LawfulSource σ]

theorem all_error {source rest : σ} {fault : Fault} (found : Source.next source = (.error fault, rest)) :
    all source = .error fault := by
  rw [all]
  split <;> simp_all

theorem all_end {source rest : σ} (found : Source.next source = (.ok .eof, rest)) : all source = .ok [] := by
  rw [all]
  split <;> simp_all [isEnd]

theorem all_token {source rest : σ} {token : Token} (found : Source.next source = (.ok token, rest))
    (proper : token ≠ .eof) : all source = (all rest).map (token :: ·) := by
  rw [all]
  split <;> simp_all [isEnd_iff]

theorem all_cases {source : σ} {tokens : List Token} (whole : all source = .ok tokens) :
    (∃ rest, Source.next source = (.ok .eof, rest) ∧ tokens = []) ∨
      ∃ token rest others, Source.next source = (.ok token, rest) ∧ token ≠ .eof ∧ all rest = .ok others ∧
        tokens = token :: others := by
  rcases found : Source.next source with ⟨_ | token, rest⟩
  · rw [all_error found] at whole
    contradiction
  · by_cases ends : token = .eof
    · subst ends
      rw [all_end found, Except.ok.injEq] at whole
      exact Or.inl ⟨rest, rfl, whole.symm⟩
    · rw [all_token found ends] at whole
      cases remaining : all rest with
      | error fault => simp [remaining, Except.map] at whole
      | ok others =>
        simp only [remaining, Except.map, Except.ok.injEq] at whole
        exact Or.inr ⟨token, rest, others, rfl, ends, remaining, whole.symm⟩

theorem eof_not_mem {source : σ} {tokens : List Token} (whole : all source = .ok tokens) : .eof ∉ tokens := by
  induction tokens generalizing source with
  | nil => simp
  | cons first others ih =>
    obtain ⟨_, _, empty⟩ | ⟨token, rest, others', _, proper, remaining, same⟩ := all_cases whole
    · contradiction
    · obtain ⟨rfl, rfl⟩ := List.cons.inj same
      simpa [proper.symm] using ih remaining

theorem length_le {source : σ} {tokens : List Token} (whole : all source = .ok tokens) :
    tokens.length ≤ Source.size source := by
  induction tokens generalizing source with
  | nil => simp
  | cons first others ih =>
    obtain ⟨_, _, empty⟩ | ⟨token, rest, others', found, proper, remaining, same⟩ := all_cases whole
    · contradiction
    · obtain ⟨rfl, rfl⟩ := List.cons.inj same
      have shorter := LawfulSource.shorter found proper
      have bound := ih remaining
      simp only [List.length_cons]
      omega

/-- A source gives its tokens in order, and the end again and again after them. -/
theorem next_of_all {source : σ} {tokens : List Token} (whole : all source = .ok tokens) :
    ∃ rest, Source.next source = (.ok (tokens.headD .eof), rest) ∧ all rest = .ok tokens.tail := by
  obtain ⟨rest, found, rfl⟩ | ⟨token, rest, others, found, _, remaining, rfl⟩ := all_cases whole
  · exact ⟨rest, found, all_end (LawfulSource.ended found)⟩
  · exact ⟨rest, found, remaining⟩

theorem all_of_next {source rest : σ} {token : Token} {tokens : List Token}
    (found : Source.next source = (.ok token, rest)) (head : token = tokens.headD .eof)
    (tail : all rest = .ok tokens.tail) (proper : .eof ∉ tokens) : all source = .ok tokens := by
  cases tokens with
  | nil => exact all_end (head ▸ found)
  | cons first others =>
    obtain rfl : token = first := head
    rw [all_token found (by rintro rfl; simp at proper), tail]
    rfl

end Sources

/-- Tokens that are read again are the same. -/
theorem all_tokens {tokens : List Token} (proper : .eof ∉ tokens) : all tokens = .ok tokens := by
  induction tokens with
  | nil => exact all_end rfl
  | cons first others ih =>
    rw [List.mem_cons, not_or] at proper
    have found : Source.next (first :: others) = (.ok first, others) := by
      cases first <;> first | rfl | exact absurd rfl proper.1
    rw [all_token found (Ne.symm proper.1), ih proper.2]
    rfl

end DiceNotation.Proofs.TokenSequence

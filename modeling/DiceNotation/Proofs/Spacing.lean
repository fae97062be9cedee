import DiceNotation.Proofs.RepeatedReading
import DiceNotation.Proofs.Substitution

/-! Blanks between tokens. However tokens are written and whatever blanks stand between them, the text is read as those
tokens, as long as something separates two of them that would otherwise be one. -/

namespace DiceNotation.Proofs.Spacing
open Token TokenSequence TextCuts Grammar RepeatedReading
open Text (isBlank)

/-- A token as it is written. A number may have zeros in front of it, and every other token has one spelling. -/
inductive Lexeme where
  | number (zeros : Nat) (value : Int64) (nonneg : 0 ≤ value)
  | function (builtin : Builtin)
  | operator (operator : Operator)
  | leftParenthesis
  | rightParenthesis
  | comma

namespace Lexeme

def token : Lexeme → Token
  | number _ value _ => .number (.int value)
  | function builtin => .function builtin
  | operator kind => operatorToken kind
  | leftParenthesis => .leftParenthesis
  | rightParenthesis => .rightParenthesis
  | comma => .comma

def letters : Lexeme → List Char
  | number zeros value _ => List.replicate zeros '0' ++ (Number.int value).text.toList
  | function builtin => builtin.name.toList
  | operator kind => kind.symbol.toList
  | leftParenthesis => ['(']
  | rightParenthesis => [')']
  | comma => [',']

/-- Side by side these two would be read as other tokens. -/
def joins : Lexeme → Lexeme → Bool
  | number .., number .. | function _, number .. | function _, function _ => true
  | operator .divide, operator .divide | operator .divide, operator .floorDivide => true
  | _, _ => false

def continues : Lexeme → Char → Bool
  | number .., c => c.isDigit || c == '.'
  | function _, c => isNamePart c
  | operator .divide, c => c == '/'
  | _, _ => false

def Stops (lexeme : Lexeme) (rest : List Char) : Prop := ∀ c ∈ rest.head?, lexeme.continues c = false

end Lexeme

/-- Lexemes in order, each with the blanks behind it, and the blanks before the first. -/
structure Layout where
  lead : List Char
  words : List (Lexeme × List Char)
  lead_blank : ∀ c ∈ lead, isBlank c = true
  gaps_blank : ∀ word ∈ words, ∀ c ∈ word.2, isBlank c = true
  apart : words.IsChain fun first second => first.1.joins second.1 = true → first.2 ≠ []

def spread (words : List (Lexeme × List Char)) : List Char := words.flatMap fun word => word.1.letters ++ word.2

def Layout.text (layout : Layout) : String := String.ofList (layout.lead ++ spread layout.words)

def Layout.tokens (layout : Layout) : List Token := layout.words.map (·.1.token)

variable {lexeme next : Lexeme} {rest blanks : List Char} {words : List (Lexeme × List Char)} {c : Char}

section Stops
open Lexeme

theorem continues_solid (continued : lexeme.continues c = true) : isBlank c = false := by
  cases lexeme with
  | number =>
    have word : isWordPart c = true := by
      simp only [continues, Bool.or_eq_true, beq_iff_eq] at continued
      rcases continued with digit | rfl
      · exact digit_word digit
      · rfl
    exact isBlank_of_word word
  | function => exact isBlank_of_word (name_word continued)
  | operator operator =>
    cases operator with
    | divide =>
      obtain rfl : c = '/' := by simpa [continues] using continued
      decide
    | _ => simp [continues] at continued
  | _ => simp [continues] at continued

theorem toList_text {value : Int64} (nonneg : 0 ≤ value) :
    (Number.int value).text.toList = Nat.toDigits 10 value.toInt.toNat :=
  Substitution.written_nonneg (Int64.le_iff_toInt_le.mp nonneg)

theorem number_digits (zeros : Nat) {value : Int64} (nonneg : 0 ≤ value) :
    ∀ c ∈ List.replicate zeros '0' ++ (Number.int value).text.toList, c.isDigit = true := by
  rw [toList_text nonneg]
  refine List.forall_mem_append.mpr ⟨fun c member => ?_, Substitution.digits_toDigits _⟩
  rw [List.eq_of_mem_replicate member]
  decide

theorem letters_ne_nil (lexeme : Lexeme) : lexeme.letters ≠ [] := by
  cases lexeme with
  | number zeros value nonneg => simp [letters, toList_text nonneg, Nat.toDigits_ne_nil]
  | function builtin => cases builtin <;> decide
  | operator operator => cases operator <;> decide
  | _ => exact List.cons_ne_nil _ _

/-- A lexeme stops before every other that it does not join. -/
theorem stops_letters (apart : lexeme.joins next = false) : lexeme.Stops next.letters := by
  intro c head
  cases next with
  | number zeros value nonneg =>
    have digit : c.isDigit = true := number_digits zeros nonneg c (List.mem_of_head? head)
    cases lexeme with
    | number | function => simp [joins] at apart
    | operator operator =>
      cases operator with
      | divide =>
        have other : c ≠ '/' := by
          rintro rfl
          contradiction
        simpa [continues] using other
      | _ => rfl
    | _ => rfl
  | function builtin =>
    cases lexeme with
    | function => simp [joins] at apart
    | operator operator => cases builtin <;> cases head <;> cases operator <;> rfl
    | _ => cases builtin <;> cases head <;> rfl
  | operator operator =>
    cases lexeme with
    | operator before =>
      cases before with
      | divide =>
        cases operator with
        | divide | floorDivide => simp [joins] at apart
        | _ => cases head; rfl
      | _ => rfl
    | _ => cases operator <;> cases head <;> rfl
  | _ =>
    cases head
    cases lexeme with
    | operator operator => cases operator <;> rfl
    | _ => rfl

/-- A lexeme stops before blanks, and where there are none before what comes next. -/
theorem stops_spread (gap : ∀ c ∈ blanks, isBlank c = true)
    (apart : ∀ word ∈ words.head?, lexeme.joins word.1 = true → blanks ≠ []) : lexeme.Stops (blanks ++ spread words) := by
  cases blanks with
  | cons blank others =>
    rintro c ⟨⟩
    refine Bool.eq_false_iff.mpr fun continued => ?_
    have solid := continues_solid continued
    rw [gap blank List.mem_cons_self] at solid
    contradiction
  | nil =>
    cases words with
    | nil => simp [Stops, spread]
    | cons word others =>
      have alone : lexeme.joins word.1 = false := Bool.eq_false_iff.mpr fun joined => apart word rfl joined rfl
      intro c head
      apply stops_letters alone
      simpa [spread, List.head?_append_of_ne_nil, letters_ne_nil] using head

end Stops

section Reading
open Lexeme

theorem next_number (zeros : Nat) {value : Int64} (nonneg : 0 ≤ value)
    (stops : ∀ c ∈ rest.head?, c.isDigit = false ∧ c ≠ '.') :
    Source.next (List.replicate zeros '0' ++ (Number.int value).text.toList ++ rest) = (.ok (.number (.int value)), rest) := by
  have same : Nat.ofDigitChars 10 (List.replicate zeros '0' ++ Nat.toDigits 10 value.toInt.toNat) 0 = value.toInt.toNat := by
    rw [Nat.ofDigitChars_append, Nat.ofDigitChars_replicate_zero, Nat.mul_zero, Nat.ofDigitChars_ten_toDigits]
  have fits : Number.fit? (value.toInt.toNat : Int) = some value := by
    rw [Int.toNat_of_nonneg (Int64.le_iff_toInt_le.mp nonneg), IntegerRange.fit?_toInt]
  have read : ofDigits (List.replicate zeros '0' ++ (Number.int value).text.toList) = .ok (.number (.int value)) := by
    rw [ofDigits, toList_text nonneg, same, fits]
  have some : List.replicate zeros '0' ++ (Number.int value).text.toList ≠ [] := letters_ne_nil (.number zeros value nonneg)
  rw [next_digits (number_digits zeros nonneg) some stops, read]

theorem next_name (builtin : Builtin) (stops : ∀ c ∈ rest.head?, isNamePart c = false) :
    Source.next (builtin.name.toList ++ rest) = (.ok (.function builtin), rest) := by
  have run : rest.takeWhile isNamePart = [] ∧ rest.dropWhile isNamePart = rest := by
    cases rest with
    | nil => exact ⟨rfl, rfl⟩
    | cons c others => simp [stops c rfl]
  have inside : ∀ c ∈ builtin.name.toList, isNamePart c = true := by
    apply List.all_eq_true.mp
    cases builtin <;> rfl
  have read : readName (builtin.name.toList ++ rest) = (.ok (.function builtin), rest) := by
    rw [readName, List.takeWhile_append_of_pos inside, List.dropWhile_append_of_pos inside, run.1, run.2]
    cases builtin <;> rfl
  rw [← read]
  cases builtin <;> rfl

/-- A token is read as far as it is written, where the text behind it does not go on with it. -/
theorem next_lexeme (lexeme : Lexeme) (stops : lexeme.Stops rest) :
    Source.next (lexeme.letters ++ rest) = (.ok lexeme.token, rest) := by
  cases lexeme with
  | number zeros value nonneg =>
    exact next_number zeros nonneg (by simpa [Stops, continues, Bool.or_eq_false_iff] using stops)
  | function builtin => exact next_name builtin stops
  | operator operator =>
    cases operator with
    | divide =>
      cases rest with
      | nil => rfl
      | cons c others =>
        have single : c ≠ '/' := by simpa [Stops, continues] using stops
        have solid : readSolid ('/' :: c :: others) = (.ok .divide, c :: others) := by
          rw [readSolid]
          rintro rest ⟨⟩
          exact single rfl
        exact solid
    | _ => rfl
  | _ => rfl

theorem token_proper (lexeme : Lexeme) : lexeme.token ≠ .eof := by
  cases lexeme with
  | operator operator => cases operator <;> simp [token, operatorToken]
  | _ => simp [token]

/-- Token by token, each up to the blanks behind it. -/
theorem all_spread (gaps : ∀ word ∈ words, ∀ c ∈ word.2, isBlank c = true)
    (apart : words.IsChain fun first second => first.1.joins second.1 = true → first.2 ≠ []) :
    all (spread words) = .ok (words.map (·.1.token)) := by
  induction words with
  | nil => exact all_nil
  | cons word others ih =>
    obtain ⟨gap, gaps⟩ := List.forall_mem_cons.mp gaps
    obtain ⟨here, there⟩ := List.isChain_cons.mp apart
    have first : Source.next (spread (word :: others)) = (.ok word.1.token, word.2 ++ spread others) := by
      rw [spread, List.flatMap_cons, List.append_assoc]
      exact next_lexeme word.1 (stops_spread gap here)
    rw [all_token first (token_proper word.1), all_of_blank gap, ih gaps there]
    rfl

theorem all_layout (layout : Layout) : all layout.text.toList = .ok layout.tokens := by
  rw [Layout.text, String.toList_ofList, all_of_blank layout.lead_blank]
  exact all_spread layout.gaps_blank layout.apart

end Reading

/-- Reading a layout gives its tokens and then the end again and again. So texts of the same tokens are read as the same
tree or refused for the same fault, whatever blanks are in them. -/
theorem layout_read (layout : Layout) :
    (∀ index, tokenAt layout.text.toList index = .ok (layout.tokens.getD index .eof)) ∧
    ∀ other : Layout, other.tokens = layout.tokens →
      (Expression.ofText other.text).mapError (·.fault) = (Expression.ofText layout.text).mapError (·.fault) ∧
      ∀ tree, Expression.ofText other.text = .ok tree ↔ Expression.ofText layout.text = .ok tree := by
  refine ⟨tokenAt_of_all (all_layout layout), fun other same => ?_⟩
  have agree : (Expression.ofText other.text).mapError (·.fault) = (Expression.ofText layout.text).mapError (·.fault) :=
    Agreement.ofSource_agrees (same ▸ all_layout other) (all_layout layout)
  refine ⟨agree, fun tree => ?_⟩
  calc Expression.ofText other.text = .ok tree
      ↔ (Expression.ofText other.text).mapError (·.fault) = .ok tree := Runs.mapError_ok.symm
    _ ↔ (Expression.ofText layout.text).mapError (·.fault) = .ok tree := by rw [agree]
    _ ↔ Expression.ofText layout.text = .ok tree := Runs.mapError_ok

def packed : Layout where
  lead := []
  words := [(.function .max, []), (.leftParenthesis, []), (.number 2 7 (by decide), []), (.comma, []),
    (.operator .subtract, []), (.number 0 1 (by decide), []), (.rightParenthesis, []), (.operator .floorDivide, []),
    (.number 0 2 (by decide), []), (.operator .divide, []), (.function .abs, []), (.leftParenthesis, []),
    (.number 0 3 (by decide), []), (.rightParenthesis, [])]
  lead_blank := by simp
  gaps_blank := by simp
  apart := by simp [Lexeme.joins]

def loose : Layout where
  lead := ['\u2003']
  words := [(.function .max, [' ']), (.leftParenthesis, []), (.number 0 7 (by decide), [' ']), (.comma, ['\n']),
    (.operator .subtract, [' ']), (.number 1 1 (by decide), []), (.rightParenthesis, [' ']),
    (.operator .floorDivide, [' ']), (.number 0 2 (by decide), [' ']), (.operator .divide, [' ']),
    (.function .abs, ['\t']), (.leftParenthesis, []), (.number 0 3 (by decide), []), (.rightParenthesis, [' '])]
  lead_blank := List.forall_mem_singleton.mpr (by decide)
  gaps_blank := by simp; decide
  apart := by simp [Lexeme.joins]

def separated : Layout where
  lead := []
  words := [(.number 0 1 (by decide), [' ']), (.number 1 2 (by decide), []), (.operator .divide, [' ']),
    (.operator .divide, [' ']), (.operator .floorDivide, []), (.function .abs, [' ']), (.function .max, [' ']),
    (.number 0 3 (by decide), [])]
  lead_blank := by simp
  gaps_blank := by simp; decide
  apart := by simp [Lexeme.joins]

theorem layout_read_blanks :
    packed.text = "max(007,-1)//2/abs(3)" ∧ loose.text = "\u2003max (7 ,\n- 01) // 2 / abs\t(3) " ∧
    loose.tokens = packed.tokens ∧
    (∃ tree, Expression.ofText packed.text = .ok tree ∧ Expression.ofText loose.text = .ok tree) ∧
    separated.text = "1 02/ / //abs max 3" ∧ ∀ index, tokenAt separated.text.toList index =
      .ok ([Token.number (.int 1), .number (.int 2), .divide, .divide, .floorDivide, .function .abs, .function .max,
        .number (.int 3)].getD index .eof) := by
  obtain ⟨tree, read⟩ := Runs.exists_of_isOk (Expression.ofText packed.text) (by decide +kernel)
  have same : loose.tokens = packed.tokens := rfl
  refine ⟨by decide +kernel, by decide +kernel, same, ⟨tree, read, ?_⟩, by decide +kernel, (layout_read separated).1⟩
  exact (((layout_read packed).2 loose same).2 tree).mpr read

end DiceNotation.Proofs.Spacing

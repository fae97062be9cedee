import DiceNotation.Proofs.GrammarSoundness
import DiceNotation.Proofs.PatternText
import DiceNotation.Proofs.TextCuts
import Mathlib.Data.List.Infix

/-! The vocabulary of expressions. A text is taken for one only if all of it is made of blanks, numbers, symbols and
the names of three functions, so a foreign character or name spoils it wherever it stands. -/

namespace DiceNotation.Proofs.Vocabulary
open Token TokenSequence TextCuts Runs
open Text (isBlank)

variable {text before name rest : List Char} {token : Token} {tokens : List Token}

structure IsNumber (text : List Char) : Prop where
  only : ∀ c ∈ text, c.isDigit = true ∨ c = '.'
  point : text.count '.' ≤ 1
  digit : ∃ c ∈ text, c.isDigit = true

def symbols : List (List Char) := [['+'], ['-'], ['*'], ['/'], ['/', '/'], ['('], [')'], [',']]

def words : List (List Char) := ["abs".toList, "max".toList, "min".toList]

/-- A text in the vocabulary. No word goes on into what follows it. -/
inductive Spelled : List Char → Prop where
  | nil : Spelled []
  | blank {c rest} (blank : isBlank c = true) (behind : Spelled rest) : Spelled (c :: rest)
  | number {digits rest} (number : IsNumber digits) (behind : Spelled rest) : Spelled (digits ++ rest)
  | symbol {symbol rest} (member : symbol ∈ symbols) (behind : Spelled rest) : Spelled (symbol ++ rest)
  | word {word rest} (member : word ∈ words) (ends : ∀ next ∈ rest.head?, isNamePart next = false)
      (behind : Spelled rest) : Spelled (word ++ rest)

section Reading

private theorem count_point {digits : List Char} (numeric : ∀ c ∈ digits, c.isDigit = true) : digits.count '.' = 0 :=
  List.count_eq_zero.mpr fun member => absurd (numeric '.' member) (by decide)

private theorem digits_number {digits : List Char} (numeric : ∀ c ∈ digits, c.isDigit = true) (some : digits ≠ []) :
    IsNumber digits where
  only c member := .inl (numeric c member)
  point := (count_point numeric).trans_le (Nat.zero_le 1)
  digit := ⟨digits.head some, List.head_mem some, numeric _ (List.head_mem some)⟩

private theorem decimal_number {whole places : List Char} (numeric : ∀ c ∈ whole ++ places, c.isDigit = true)
    (some : ¬ (whole = [] ∧ places = [])) : IsNumber (whole ++ '.' :: places) := by
  obtain ⟨only, -, c, member, digit⟩ := digits_number numeric (mt List.append_eq_nil_iff.mp some)
  have same : (whole ++ '.' :: places).Perm ('.' :: (whole ++ places)) := List.perm_middle
  refine ⟨fun c member => ?_, ?_, c, same.mem_iff.mpr (List.mem_cons_of_mem _ member), digit⟩
  · rcases List.mem_cons.mp (same.mem_iff.mp member) with point | inside
    · exact .inr point
    · exact only c inside
  · rw [same.count_eq, List.count_cons_self, count_point numeric]

theorem readNumber_spelled {c : Char} (begins : (c.isDigit || c == '.') = true)
    (read : readNumber (c :: text) = (.ok token, rest)) (spelled : Spelled rest) : Spelled (c :: text) := by
  have whole : (c :: text).takeWhile Char.isDigit ++ (c :: text).dropWhile Char.isDigit = c :: text :=
    List.takeWhile_append_dropWhile
  have digits {text : List Char} : ∀ c ∈ text.takeWhile Char.isDigit, c.isDigit = true :=
    fun _ member => List.mem_takeWhile_imp member
  rw [← whole]
  rw [readNumber] at read
  split at read
  next afterPoint remaining =>
    obtain ⟨decimal, rfl⟩ := Prod.mk.inj read
    rw [ofDecimal] at decimal
    split at decimal
    · contradiction
    next some =>
      have places : afterPoint.takeWhile Char.isDigit ++ afterPoint.dropWhile Char.isDigit = afterPoint :=
        List.takeWhile_append_dropWhile
      rw [remaining, ← places, ← List.cons_append, ← List.append_assoc]
      exact .number (decimal_number (List.forall_mem_append.mpr ⟨digits, digits⟩) some) spelled
  next noPoint =>
    obtain ⟨-, rfl⟩ := Prod.mk.inj read
    refine .number (digits_number digits fun none => ?_) spelled
    by_cases digit : c.isDigit = true
    · rw [List.takeWhile_cons_of_pos digit] at none
      contradiction
    · obtain rfl : c = '.' := by simpa [digit] using begins
      exact noPoint text rfl

theorem ofName_ok {name : String} (known : ofName name = .ok token) : name.toList ∈ words := by
  rw [ofName] at known
  split at known
  next builtin found =>
    have same : builtin.name = name := by simpa using List.find?_some found
    subst same
    cases builtin <;> decide
  next => contradiction

theorem readName_spelled (read : readName text = (.ok token, rest)) (spelled : Spelled rest) : Spelled text := by
  have whole : text.takeWhile isNamePart ++ text.dropWhile isNamePart = text := List.takeWhile_append_dropWhile
  obtain ⟨known, rfl⟩ := Prod.mk.inj read
  have member := ofName_ok known
  rw [String.toList_ofList] at member
  rw [← whole]
  refine .word member (fun next head => ?_) spelled
  have stops := List.head?_dropWhile_not isNamePart text
  rwa [Option.mem_def.mp head] at stops

theorem readSolid_spelled (read : readSolid text = (.ok token, rest)) (spelled : Spelled rest) : Spelled text := by
  have sign {c : Char} {left : List Char} {answer : Except Expression.Fault Token} (member : [c] ∈ symbols)
      (same : (answer, left) = (.ok token, rest)) : Spelled (c :: left) := by
    obtain ⟨-, rfl⟩ := Prod.mk.inj same
    exact .symbol member spelled
  revert read
  fun_cases readSolid text with
  | case1 => exact fun _ => .nil
  | case5 left =>
    rintro ⟨⟩
    exact .symbol (by decide : ['/', '/'] ∈ symbols) spelled
  | case10 c left _ _ _ _ _ _ _ _ begins => exact fun read => readNumber_spelled begins read spelled
  | case11 => exact fun read => readName_spelled read spelled
  | case12 => simp
  | _ => exact sign (by decide)

theorem spelled_of_solid (solid : Spelled (text.dropWhile isBlank)) : Spelled text := by
  induction text with
  | nil => exact .nil
  | cons c rest ih =>
    by_cases blank : isBlank c = true
    · rw [List.dropWhile_cons_of_pos blank] at solid
      exact .blank blank (ih solid)
    · rwa [List.dropWhile_cons_of_neg blank] at solid

/-- No character of a text is left out of its tokens but blanks. -/
theorem spelled_of_all (lexed : all text = .ok tokens) : Spelled text := by
  induction size : text.length using Nat.strong_induction_on generalizing text tokens with
  | _ size ih =>
    apply spelled_of_solid
    obtain ⟨rest, found, -⟩ | ⟨token, rest, others, found, proper, remaining, -⟩ := all_cases lexed
    · rw [(readSolid_end found).1]
      exact .nil
    · have shorter : rest.length < text.length := LawfulSource.shorter found proper
      exact readSolid_spelled found (ih rest.length (size ▸ shorter) remaining rfl)

end Reading

section Characters

def Admitted (c : Char) : Prop :=
  isBlank c = true ∨ c.isDigit = true ∨ c = '.' ∨ c ∈ (symbols ++ words).flatten

instance (c : Char) : Decidable (Admitted c) := inferInstanceAs (Decidable (_ ∨ _ ∨ _ ∨ _))

private theorem admitted_of_piece {piece : List Char} (member : piece ∈ symbols ++ words) : ∀ c ∈ piece, Admitted c :=
  fun _ inside => .inr (.inr (.inr (List.mem_flatten.mpr ⟨piece, member, inside⟩)))

theorem Spelled.admitted (spelled : Spelled text) : ∀ c ∈ text, Admitted c := by
  induction spelled with
  | nil => simp
  | blank blank _ ih => exact List.forall_mem_cons.mpr ⟨.inl blank, ih⟩
  | number number _ ih =>
    refine List.forall_mem_append.mpr ⟨fun c member => ?_, ih⟩
    exact .inr ((number.only c member).imp_right .inl)
  | symbol member _ ih => exact List.forall_mem_append.mpr ⟨admitted_of_piece (List.mem_append_left _ member), ih⟩
  | word member _ _ ih => exact List.forall_mem_append.mpr ⟨admitted_of_piece (List.mem_append_right _ member), ih⟩

end Characters

section Names
variable {piece behind : List Char}

/-- A name in its full length. What touches it in front are at most digits, with which no name begins. -/
structure Named (before name rest : List Char) : Prop where
  first : ∃ c ∈ name.head?, isNameStart c = true
  letters : ∀ c ∈ name, isNamePart c = true
  begins : ∀ run, run <:+ before → (∀ c ∈ run, isNamePart c = true) → ∀ c ∈ run, c.isDigit = true
  ends : ∀ c ∈ rest.head?, isNamePart c = false

theorem Named.suffix (named : Named before name rest) {between : List Char} (part : between <:+ before) :
    Named between name rest :=
  ⟨named.first, named.letters, fun run inside => named.begins run (inside.trans part), named.ends⟩

private theorem start_not_digit {c : Char} (start : isNameStart c = true) : c.isDigit = false := by
  simp only [isNameStart, isAlpha_eq, Char.isDigit, Bool.or_eq_true, beq_iff_eq] at start ⊢
  rcases start with rfl | upper | lower <;> grind

private theorem Named.cut (named : Named before name rest) (same : piece ++ behind = before ++ (name ++ rest)) :
    (∃ between, behind = between ++ (name ++ rest) ∧ Named between name rest) ∨
      ∃ c left, piece = before ++ c :: left ∧ name ++ rest = c :: left ++ behind ∧ isNameStart c = true := by
  rcases List.append_eq_append_iff.mp same with ⟨between, rfl, found⟩ | ⟨left, rfl, found⟩
  · exact .inl ⟨between, found, named.suffix (List.suffix_append _ _)⟩
  · cases left with
    | nil => exact .inl ⟨[], found.symm, named.suffix List.nil_suffix⟩
    | cons c left =>
      obtain ⟨first, head, start⟩ := named.first
      obtain ⟨letters, rfl⟩ := List.head?_eq_some_iff.mp head
      obtain rfl : first = c := (List.cons.inj found).1
      exact .inr ⟨first, left, rfl, found, start⟩

private theorem word_letters {word : List Char} (member : word ∈ words) :
    ∀ c ∈ word, isNamePart c = true ∧ c.isDigit = false := by
  have each : ∀ word ∈ words, word.all (fun c => isNamePart c && !c.isDigit) = true := by decide
  simpa using each word member

private theorem symbol_starts {symbol : List Char} (member : symbol ∈ symbols) :
    ∀ c ∈ symbol, isNameStart c = false := by
  have each : ∀ symbol ∈ symbols, symbol.all (fun c => !isNameStart c) = true := by decide
  simpa using each symbol member

private theorem takeWhile_letters (letters : ∀ c ∈ name, isNamePart c = true)
    (ends : ∀ c ∈ rest.head?, isNamePart c = false) :
    (name ++ rest).takeWhile isNamePart = name := by
  rw [List.takeWhile_append_of_pos letters]
  cases rest with
  | nil => simp
  | cons c others => simp [ends c rfl]

private theorem Named.word {left : List Char} (named : Named before name rest) (member : before ++ left ∈ words)
    (ends : ∀ c ∈ behind.head?, isNamePart c = false) (found : name ++ rest = left ++ behind) : name ∈ words := by
  obtain ⟨front, letters⟩ := List.forall_mem_append.mp (word_letters member)
  have digits := named.begins before List.suffix_rfl fun c inside => (front c inside).1
  obtain rfl : before = [] := by
    refine List.eq_nil_iff_forall_not_mem.mpr fun c inside => ?_
    have digit := digits c inside
    rw [(front c inside).2] at digit
    contradiction
  have same : name = left := by
    rw [← takeWhile_letters named.letters named.ends, found, takeWhile_letters (fun c inside => (letters c inside).1) ends]
  rwa [same]

/-- All names in a text are words, for no letter of a name stands in anything else. -/
theorem Spelled.named (spelled : Spelled text) (same : text = before ++ (name ++ rest)) (named : Named before name rest) :
    name ∈ words := by
  induction spelled generalizing before with
  | nil =>
    obtain ⟨first, head, -⟩ := named.first
    obtain ⟨letters, rfl⟩ := List.head?_eq_some_iff.mp head
    simp at same
  | @blank c behind blank _ ih =>
    obtain ⟨between, found, named'⟩ | ⟨first, left, inside, -, start⟩ := named.cut (show [c] ++ behind = _ from same)
    · exact ih found named'
    · obtain rfl : first = c := List.mem_singleton.mp (inside ▸ by simp)
      have solid := isBlank_of_word (name_word (namePart_of_start start))
      rw [blank] at solid
      contradiction
  | number number _ ih =>
    obtain ⟨between, found, named'⟩ | ⟨first, left, inside, -, start⟩ := named.cut same
    · exact ih found named'
    · rcases number.only first (by simp [inside]) with digit | rfl
      · rw [start_not_digit start] at digit
        contradiction
      · contradiction
  | symbol member _ ih =>
    obtain ⟨between, found, named'⟩ | ⟨first, left, inside, -, start⟩ := named.cut same
    · exact ih found named'
    · rw [symbol_starts member first (by simp [inside])] at start
      contradiction
  | word member ends _ ih =>
    obtain ⟨between, found, named'⟩ | ⟨first, left, inside, found, -⟩ := named.cut same
    · exact ih found named'
    · exact named.word (inside ▸ member) ends found

end Names

section Acceptance
variable {text : String} {tree : Expression} {value : Number}

theorem spelled_of_ofText (read : Expression.ofText text = .ok tree) : Spelled text.toList := by
  obtain ⟨tokens, lexed, -⟩ := GrammarSoundness.ofSource_sound read
  exact spelled_of_all lexed

theorem spelled_of_evaluate (evaluated : evaluate text = .ok value) : Spelled text.toList := by
  obtain ⟨tree, read, -⟩ := bind_ok.mp evaluated
  exact spelled_of_ofText read

theorem spelled_of_ofThrows {template : Template} {throws : List Throw} {outcome : Outcome}
    (settled : Outcome.ofThrows template throws = .ok outcome) :
    ∃ text, template.render (Outcome.boundTotal throws) = .ok text ∧ Spelled text.toList := by
  obtain ⟨-, -, settled⟩ := PatternText.ofThrows_ok settled
  obtain ⟨text, tree, value, rendered, read, -, -⟩ := PatternText.totalOf_ok settled
  exact ⟨text, rendered, spelled_of_ofText read⟩

structure Rejected (text : String) : Prop where
  read : ∃ failure, Expression.ofText text = .error failure
  evaluated : ∃ failure, evaluate text = .error failure
  rendered : ∀ template throws, template.render (Outcome.boundTotal throws) = .ok text →
    ∃ error, Outcome.ofThrows template throws = .error error

private theorem exists_error {ε α : Type} {answer : Except ε α} (none : ∀ value, answer ≠ .ok value) :
    ∃ error, answer = .error error := by
  cases answer with
  | error error => exact ⟨error, rfl⟩
  | ok value => exact absurd rfl (none value)

theorem rejected_of_not_spelled (foreign : ¬ Spelled text.toList) : Rejected text where
  read := exists_error fun tree read => foreign (spelled_of_ofText read)
  evaluated := exists_error fun value evaluated => foreign (spelled_of_evaluate evaluated)
  rendered template throws rendered := exists_error fun outcome settled => by
    obtain ⟨text', rendered', spelled⟩ := spelled_of_ofThrows settled
    obtain rfl := Except.ok.inj (rendered.symm.trans rendered')
    exact foreign spelled

/-- Whatever is taken for an expression keeps to the vocabulary, and what does not is refused. -/
theorem accepted_spelled :
    (∀ text tree, Expression.ofText text = .ok tree → Spelled text.toList) ∧
    (∀ text value, evaluate text = .ok value → Spelled text.toList) ∧
    (∀ template throws outcome, Outcome.ofThrows template throws = .ok outcome →
      ∃ text, template.render (Outcome.boundTotal throws) = .ok text ∧ Spelled text.toList) ∧
    (∀ text : String, (∃ c ∈ text.toList, ¬ Admitted c) → Rejected text) ∧
    (∀ (text : String) (before name rest : List Char), text.toList = before ++ (name ++ rest) → Named before name rest →
      name ∉ words → Rejected text) := by
  refine ⟨fun _ _ => spelled_of_ofText, fun _ _ => spelled_of_evaluate, fun _ _ _ => spelled_of_ofThrows, ?_, ?_⟩
  · rintro text ⟨c, member, foreign⟩
    exact rejected_of_not_spelled fun spelled => foreign (spelled.admitted c member)
  · intro text before name rest same named unknown
    exact rejected_of_not_spelled fun spelled => unknown (spelled.named same named)

/-- A foreign character spoils a text, and so does a foreign name of letters that words have too. -/
theorem accepted_spelled_names :
    Spelled " 2*abs(-3.5) // 1".toList ∧ Rejected "2 % 3" ∧ Rejected "1 + 2absmax(3, 4)" := by
  obtain ⟨-, valued, -, characters, names⟩ := accepted_spelled
  have evaluated : (evaluate " 2*abs(-3.5) // 1").isOk = true := by decide +kernel
  obtain ⟨value, found⟩ := exists_of_isOk _ evaluated
  refine ⟨valued _ value found, characters "2 % 3" ⟨'%', by decide, by decide⟩, ?_⟩
  have before : ∀ run ∈ "1 + 2".toList.tails, run.all isNamePart = true → run.all Char.isDigit = true := by decide
  have named : Named "1 + 2".toList "absmax".toList "(3, 4)".toList := by
    refine ⟨⟨'a', rfl, rfl⟩, List.all_eq_true.mp (by decide), fun run part letters => ?_, ?_⟩
    · exact List.all_eq_true.mp (before run ((List.mem_tails _ _).mpr part) (List.all_eq_true.mpr letters))
    · rintro c ⟨⟩
      decide
  exact names _ _ _ _ (by decide) named (by decide)

end Acceptance

end DiceNotation.Proofs.Vocabulary

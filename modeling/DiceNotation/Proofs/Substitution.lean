import DiceNotation.Pattern.Outcome
import DiceNotation.Proofs.Agreement
import DiceNotation.Proofs.IntegerRange
import DiceNotation.Proofs.Runs
import DiceNotation.Proofs.TextCuts
import Mathlib.Data.List.Chain

/-! Totals are written into the text of a template, and the text is read afterwards. Where placeholders stand
apart from their neighbours, this is the same as putting one token for each total among the tokens of the text. -/

namespace DiceNotation.Proofs.Substitution
open Token TokenSequence TextCuts IntegerRange Runs
open Expression (Fault)
open Template (Piece)

variable {throws : List Throw} {pieces : List Piece} {back : List Char} {total : Int64}

def written (total : Int64) : List Char := (toString total.toInt).toList

theorem written_nonneg (nonneg : 0 ≤ total.toInt) : written total = Nat.toDigits 10 total.toInt.toNat := by
  obtain ⟨n, same⟩ := Int.eq_ofNat_of_zero_le nonneg
  rw [written, same]
  exact Nat.toList_repr

theorem written_neg (negative : total.toInt < 0) : written total = '-' :: Nat.toDigits 10 total.toInt.natAbs := by
  obtain ⟨n, same⟩ := Int.eq_negSucc_of_lt_zero negative
  rw [written, same]
  change ("-" ++ (n + 1).repr).toList = _
  rw [String.toList_append, Nat.toList_repr]
  rfl

theorem digits_toDigits (n : Nat) : ∀ c ∈ Nat.toDigits 10 n, c.isDigit = true :=
  fun _ member => Nat.isDigit_of_mem_toDigits (by decide) (by decide) member

private theorem ofDigits_toDigits (n : Nat) : ofDigits (Nat.toDigits 10 n) =
    match Number.fit? n with
    | some value => .ok (.number (.int value))
    | none => .error (.invalidNumber (String.ofList (Nat.toDigits 10 n))) := by
  cases fits : Number.fit? n with
  | none => simp only [ofDigits, Nat.ofDigitChars_ten_toDigits, fits]
  | some value => simp only [ofDigits, Nat.ofDigitChars_ten_toDigits, fits]

def Opened (back : List Char) : Prop := ∀ first ∈ back.head?, first.isDigit = false ∧ first ≠ '.'

private theorem opened_nil : Opened [] := by
  simp [Opened]

private theorem next_toDigits (n : Nat) (opened : Opened back) :
    Source.next (Nat.toDigits 10 n ++ back) = (ofDigits (Nat.toDigits 10 n), back) :=
  next_digits (digits_toDigits n) Nat.toDigits_ne_nil opened

private theorem all_toDigits (n : Nat) (opened : Opened back) :
    all (Nat.toDigits 10 n ++ back) = (do return (← all (Nat.toDigits 10 n)) ++ (← all back)) := by
  have here := next_toDigits n opened
  have alone := next_toDigits n opened_nil
  rw [List.append_nil] at alone
  cases answer : ofDigits (Nat.toDigits 10 n) with
  | error fault =>
    rw [answer] at here alone
    rw [all_error here, all_error alone]
    rfl
  | ok token =>
    rw [answer] at here alone
    have proper : token ≠ .eof := by
      rw [ofDigits_toDigits] at answer
      split at answer <;> cases answer
      simp
    rw [all_token here proper, all_token alone proper, all_nil]
    cases all back <;> rfl

/-- The tokens of a total that is written before such a text come first. -/
theorem all_written (opened : Opened back) :
    all (written total ++ back) = (do return (← all (written total)) ++ (← all back)) := by
  by_cases nonneg : 0 ≤ total.toInt
  · rw [written_nonneg nonneg]
    exact all_toDigits _ opened
  · rw [written_neg (by omega), List.cons_append, all_minus, all_minus, all_toDigits _ opened]
    cases all (Nat.toDigits 10 total.toInt.natAbs) <;> cases all back <;> rfl

/-- Digits that are read at all are a number in range. -/
theorem all_toDigits_ok {n : Nat} {found : List Token} (lexed : all (Nat.toDigits 10 n) = .ok found) :
    ∃ value : Int64, found = [.number (.int value)] ∧ value.toInt = n := by
  have digits := next_toDigits n opened_nil
  rw [List.append_nil, ofDigits_toDigits] at digits
  cases fits : Number.fit? n with
  | none =>
    rw [fits] at digits
    rw [all_error digits] at lexed
    contradiction
  | some value =>
    rw [fits] at digits
    rw [all_token digits (by simp), all_nil] at lexed
    exact ⟨value, (Except.ok.inj lexed).symm, fit?_eq_some.mp fits⟩

theorem all_written_nonneg (nonneg : 0 ≤ total.toInt) : all (written total) = .ok [.number (.int total)] := by
  obtain ⟨n, same⟩ := Int.eq_ofNat_of_zero_le nonneg
  have fits : Number.fit? n = some total := by
    have := fit?_toInt total
    rwa [same] at this
  have digits := next_toDigits n opened_nil
  rw [List.append_nil, ofDigits_toDigits, fits] at digits
  rw [written_nonneg nonneg, same, Int.toNat_natCast]
  rw [all_token digits (by simp), all_nil]
  rfl

def characters (throws : List Throw) : Piece → List Char
  | .text characters => characters.toList
  | .placeholder index => match throws[index]? with
    | some throw => written throw.total
    | none => []

def tokens (throws : List Throw) : Piece → Except Fault (List Token)
  | .text characters => all characters.toList
  | .placeholder index => match throws[index]? with
    | some throw => .ok [.number (.int throw.total)]
    | none => .error (.unboundPlaceholder index)

section Bound
variable {index : Nat} (inside : index < throws.length)
include inside

theorem characters_placeholder : characters throws (.placeholder index) = written throws[index].total := by
  simp only [characters, List.getElem?_eq_getElem inside]

theorem tokens_placeholder : tokens throws (.placeholder index) = .ok [.number (.int throws[index].total)] := by
  simp only [tokens, List.getElem?_eq_getElem inside]

end Bound

def joined (tokens : Piece → Except Fault (List Token)) : List Piece → Except Fault (List Token)
  | [] => .ok []
  | piece :: rest => do return (← tokens piece) ++ (← joined tokens rest)

theorem joined_cons {reading : Piece → Except Fault (List Token)} {piece : Piece} {found : List Token}
    (read : joined reading (piece :: pieces) = .ok found) :
    ∃ first others, reading piece = .ok first ∧ joined reading pieces = .ok others ∧ found = first ++ others := by
  rw [joined] at read
  obtain ⟨first, here, read⟩ := bind_ok.mp read
  obtain ⟨others, there, read⟩ := bind_ok.mp read
  exact ⟨first, others, here, there, (Except.ok.inj read).symm⟩

def Bound (throws : List Throw) (pieces : List Piece) : Prop := ∀ index, .placeholder index ∈ pieces → index < throws.length

/-- No placeholder continues a word or another placeholder, and no number goes on behind one. -/
def Apart : Piece → Piece → Prop
  | .text characters, .placeholder _ => Closed characters.toList
  | .placeholder _, .text characters => Opened characters.toList
  | .placeholder _, .placeholder _ => False
  | .text _, .text _ => True

def Separated (template : Template) : Prop := template.pieces.IsChain Apart

private theorem bound_cons {piece : Piece} {rest : List Piece} :
    Bound throws (piece :: rest) ↔ (∀ index, piece = .placeholder index → index < throws.length) ∧ Bound throws rest := by
  simp only [Bound, List.mem_cons]
  grind

private theorem go_bound (bound : Bound throws pieces) :
    Template.render.go (Outcome.boundTotal throws) pieces = .ok (String.ofList (pieces.flatMap (characters throws))) := by
  induction pieces with
  | nil => rfl
  | cons piece rest ih =>
    obtain ⟨here, there⟩ := bound_cons.mp bound
    cases piece with
    | text letters =>
      rw [Template.render.go, ih there, List.flatMap_cons, String.ofList_append, characters, String.ofList_toList]
      rfl
    | placeholder index =>
      have inside : index < throws.length := here index rfl
      rw [Template.render.go, ih there, List.flatMap_cons, String.ofList_append, characters_placeholder inside, written,
        String.ofList_toList, Outcome.boundTotal, List.getElem?_eq_getElem inside]
      rfl

theorem render_bound {template : Template} (bound : Bound throws template.pieces) :
    template.render (Outcome.boundTotal throws) = .ok (String.ofList (template.pieces.flatMap (characters throws))) :=
  go_bound bound

private theorem bound_of_go {text : String} (rendered : Template.render.go (Outcome.boundTotal throws) pieces = .ok text) :
    Bound throws pieces := by
  induction pieces generalizing text with
  | nil => simp [Bound]
  | cons piece rest ih =>
    cases piece with
    | text letters =>
      rw [Template.render.go] at rendered
      obtain ⟨others, there, -⟩ := bind_ok.mp rendered
      exact bound_cons.mpr ⟨by simp, ih there⟩
    | placeholder index =>
      rw [Template.render.go] at rendered
      obtain ⟨first, here, remaining⟩ := bind_ok.mp rendered
      obtain ⟨others, there, -⟩ := bind_ok.mp remaining
      refine bound_cons.mpr ⟨fun index' same => ?_, ih there⟩
      obtain rfl := Piece.placeholder.inj same
      by_contra beyond
      have missing : throws[index]? = none := by simpa using beyond
      rw [Outcome.boundTotal, missing] at here
      contradiction

theorem bound_of_render {template : Template} {text : String}
    (rendered : template.render (Outcome.boundTotal throws) = .ok text) : Bound throws template.pieces :=
  bound_of_go rendered

private theorem first_written (total : Int64) : ∀ first ∈ (written total).head?, first ≠ '/' := by
  intro first member
  by_cases nonneg : 0 ≤ total.toInt
  · rw [written_nonneg nonneg] at member
    have digit := Nat.isDigit_of_mem_toDigits (by decide) (by decide) (List.mem_of_mem_head? member)
    rintro rfl
    contradiction
  · rw [written_neg (by omega)] at member
    obtain rfl : '-' = first := by simpa using member
    decide

private theorem written_ne_nil (total : Int64) : written total ≠ [] := by
  by_cases nonneg : 0 ≤ total.toInt
  · rw [written_nonneg nonneg]
    exact Nat.toDigits_ne_nil
  · rw [written_neg (by omega)]
    simp

theorem merged_tail {piece : Piece} {rest : List Piece} (merged : Template.Merged (piece :: rest)) :
    Template.Merged rest := by
  cases piece with
  | text letters => exact merged.2.2
  | placeholder index => exact merged

/-- The tokens of a filled template are those of its pieces as they are filled. -/
theorem all_characters (merged : Template.Merged pieces) (separated : pieces.IsChain Apart) (bound : Bound throws pieces) :
    all (pieces.flatMap (characters throws)) = joined (fun piece => all (characters throws piece)) pieces := by
  induction pieces with
  | nil => exact all_end rfl
  | cons piece rest ih =>
    obtain ⟨here, there⟩ := bound_cons.mp bound
    have remaining := ih (merged_tail merged) separated.tail there
    rw [List.flatMap_cons, joined, ← remaining]
    cases rest with
    | nil =>
      rw [List.flatMap_nil, List.append_nil, all_nil]
      cases all (characters throws piece) <;> simp [bind, pure, Except.bind, Except.pure]
    | cons next others =>
      have apart : Apart piece next := separated.rel
      cases piece with
      | text letters =>
        apply all_append
        · cases next with
          | text other => exact absurd rfl (merged.2.1 other)
          | placeholder index => exact apart
        · cases next with
          | text other => exact absurd rfl (merged.2.1 other)
          | placeholder index =>
            have inside : index < throws.length := there index (by simp)
            rw [List.flatMap_cons, characters_placeholder inside, List.head?_append_of_ne_nil _ (written_ne_nil _)]
            exact first_written _
      | placeholder index =>
        rw [characters_placeholder (here index rfl)]
        apply all_written
        cases next with
        | text letters =>
          have some : letters.toList ≠ [] := by simpa using (merged : Template.Merged (.text letters :: others)).1
          rw [Opened, List.flatMap_cons, characters, List.head?_append_of_ne_nil _ some]
          exact apart
        | placeholder next => exact apart.elim

def valueOf (tokens : List Token) : Except Fault Int64 := do
  let tree ← (Expression.ofSource tokens).mapError (·.fault)
  let value ← tree.evaluate
  value.toInteger

theorem totalOf_lexed {template : Template} {text : String} {tokens : List Token}
    (rendered : template.render (Outcome.boundTotal throws) = .ok text) (lexed : all text.toList = .ok tokens) :
    (Outcome.totalOf template throws).mapError (·.fault) = valueOf tokens := by
  have proper : .eof ∉ tokens := eof_not_mem lexed
  have same : (Expression.ofText text).mapError (·.fault) = (Expression.ofSource tokens).mapError (·.fault) :=
    Agreement.ofSource_agrees lexed (all_tokens proper)
  rw [valueOf, ← same, Outcome.totalOf, rendered]
  simp only [evaluate, bind, Except.bind]
  cases Expression.ofText text with
  | error failure => rfl
  | ok tree =>
    simp only [mapError_of_ok]
    cases tree.evaluate with
    | error fault => rfl
    | ok value =>
      dsimp only
      cases value.toInteger <;> rfl

/-- The throws whose totals are their sums. -/
theorem total_of_sum {throw : Throw} (fits : (throw.sum : Int) ≤ Int64.maxValue.toInt) : throw.total.toInt = throw.sum := by
  have bound : throw.sum < 2 ^ 63 := by
    have : Int64.maxValue.toInt = 2 ^ 63 - 1 := by decide
    omega
  exact Int64.toInt_ofNat_of_lt bound

private theorem joined_tokens (nonneg : ∀ throw ∈ throws, 0 ≤ throw.total.toInt) (bound : Bound throws pieces) :
    joined (fun piece => all (characters throws piece)) pieces = joined (tokens throws) pieces := by
  induction pieces with
  | nil => rfl
  | cons piece rest ih =>
    obtain ⟨here, there⟩ := bound_cons.mp bound
    have same : all (characters throws piece) = tokens throws piece := by
      cases piece with
      | text letters => rfl
      | placeholder index =>
        have inside : index < throws.length := here index rfl
        rw [characters_placeholder inside, tokens_placeholder inside]
        exact all_written_nonneg (nonneg _ (List.getElem_mem inside))
    rw [joined, joined, ih there, same]

private theorem joined_ok {tokens : Piece → Except Fault (List Token)}
    (each : ∀ piece ∈ pieces, ∃ found, tokens piece = .ok found) :
    ∃ found, joined tokens pieces = .ok found := by
  induction pieces with
  | nil => exact ⟨[], rfl⟩
  | cons piece rest ih =>
    obtain ⟨here, there⟩ := List.forall_mem_cons.mp each
    obtain ⟨first, found⟩ := here
    obtain ⟨others, remaining⟩ := ih there
    exact ⟨first ++ others, by rw [joined, found, remaining]; rfl⟩

theorem ofThrows_substitutes {template : Template} (bound : ∀ index ∈ template.placeholders, index < throws.length)
    (fits : ∀ throw ∈ throws, (throw.sum : Int) ≤ Int64.maxValue.toInt) (separated : Separated template)
    (lexes : ∀ letters, .text letters ∈ template.pieces → ∃ found, all letters.toList = .ok found) :
    ∃ text found, template.render (Outcome.boundTotal throws) = .ok text ∧
      joined (tokens throws) template.pieces = .ok found ∧
      all text.toList = .ok found ∧
      (∀ total, valueOf found = .ok total → Outcome.ofThrows template throws = .ok ⟨total, throws, template⟩) ∧
      ∀ fault, valueOf found = .error fault → ∃ place, Outcome.ofThrows template throws = .error (.arithmetic ⟨fault, place⟩) := by
  have bound : Bound throws template.pieces := by
    intro index member
    apply bound
    rw [Template.placeholders, List.mem_filterMap]
    exact ⟨_, member, rfl⟩
  have nonneg : ∀ throw ∈ throws, 0 ≤ throw.total.toInt := by
    intro throw member
    rw [total_of_sum (fits throw member)]
    exact Int.natCast_nonneg _
  obtain ⟨found, separately⟩ : ∃ found, joined (tokens throws) template.pieces = .ok found := by
    apply joined_ok
    intro piece member
    cases piece with
    | text letters => exact lexes letters member
    | placeholder index => exact ⟨_, tokens_placeholder (bound index member)⟩
  have rendered := render_bound bound
  have lexed : all (String.ofList (template.pieces.flatMap (characters throws))).toList = .ok found := by
    rw [String.toList_ofList, all_characters template.merged separated bound, joined_tokens nonneg bound, separately]
  have same := totalOf_lexed rendered lexed
  refine ⟨_, found, rendered, separately, lexed, fun total value => ?_, fun fault value => ?_⟩
  · have settled := mapError_ok.mp (same.trans value)
    rw [Outcome.ofThrows, settled]
  · obtain ⟨failure, settled, rfl⟩ := mapError_error.mp (same.trans value)
    exact ⟨failure.position, by rw [Outcome.ofThrows, settled]⟩

/-- Two throws of dice, in the expression `2*{0}-max({1},3)`. -/
def sampleThrows : List Throw := [⟨[3, 4], [], "2d6"⟩, ⟨[5], [1], "2d6l1"⟩]

def sampleTemplate : Template :=
  ⟨[.text "2*", .placeholder 0, .text "-max(", .placeholder 1, .text ",3)"], by simp [Template.Merged]⟩

private theorem sample_separated : Separated sampleTemplate := by
  refine .cons_cons ?_ (.cons_cons ?_ (.cons_cons ?_ (.cons_cons ?_ (.singleton _))))
  all_goals
    intro c member
    obtain rfl := Option.some.inj member
    decide

private theorem sample_lexes : ∀ letters, .text letters ∈ sampleTemplate.pieces →
    ∃ found, all letters.toList = .ok found := by
  intro letters member
  simp only [sampleTemplate, List.mem_cons, Piece.text.injEq, reduceCtorEq, List.not_mem_nil, or_false, false_or] at member
  rcases member with rfl | rfl | rfl
  · exact ⟨[.number (.int 2), .multiply], all_of_next rfl rfl (all_of_next rfl rfl (all_end rfl) (by simp)) (by simp)⟩
  · exact ⟨[.minus, .function .max, .leftParenthesis],
      all_of_next rfl rfl (all_of_next rfl rfl (all_of_next rfl rfl (all_end rfl) (by simp)) (by simp)) (by simp)⟩
  · exact ⟨[.comma, .number (.int 3), .rightParenthesis],
      all_of_next rfl rfl (all_of_next rfl rfl (all_of_next rfl rfl (all_end rfl) (by simp)) (by simp)) (by simp)⟩

theorem ofThrows_substitutes_sample : ∃ text found, sampleTemplate.render (Outcome.boundTotal sampleThrows) = .ok text ∧
    joined (tokens sampleThrows) sampleTemplate.pieces = .ok found ∧ all text.toList = .ok found := by
  have bound : ∀ index ∈ sampleTemplate.placeholders, index < sampleThrows.length := by decide
  have fits : ∀ throw ∈ sampleThrows, (throw.sum : Int) ≤ Int64.maxValue.toInt := by decide
  obtain ⟨text, found, rendered, separately, lexed, -⟩ := ofThrows_substitutes bound fits sample_separated sample_lexes
  exact ⟨text, found, rendered, separately, lexed⟩

end DiceNotation.Proofs.Substitution

import DiceNotation.Proofs.NegativeNumbers
import DiceNotation.Proofs.Parsing
import DiceNotation.Proofs.PatternText
import DiceNotation.Proofs.Substitution
import DiceNotation.Proofs.TextEnds

/-! When a group of dice counts as one operand. Totals are written into the text before it is read, so a group
that touches a word or another group is read together with it. Every other group is an operand of its own, a
negative total included. -/

namespace DiceNotation.Proofs.OneOperand
open Token TokenSequence TextCuts TextEnds Grammar Neighbours NegativeNumbers Substitution IntegerRange Runs
open Expression (Fault)
open Template (Piece)

variable {throws : List Throw} {pieces : List Piece} {found spelled : List Token} {tree : Expression}

/-- A placeholder stands neither behind the end of an operand or a word, nor before one that it could go on in. -/
def StandsFree : Piece → Piece → Prop
  | .text letters, .placeholder _ => ∀ last ∈ letters.toList.getLast?, isWordPart last = false ∧ last ≠ ')'
  | .placeholder _, .text letters => Opened letters.toList
  | .placeholder _, .placeholder _ => False
  | .text _, .text _ => True

def Free (template : Template) : Prop := template.pieces.IsChain StandsFree

theorem StandsFree.apart {piece next : Piece} (free : StandsFree piece next) : Apart piece next := by
  cases piece with
  | text letters =>
    cases next with
    | text => trivial
    | placeholder index => exact fun last member => (free last member).1
  | placeholder index =>
    cases next with
    | text letters => exact free
    | placeholder => exact free

theorem Free.separated {template : Template} (free : Free template) : Separated template :=
  List.IsChain.imp (fun _ _ => StandsFree.apart) free

private theorem placeholder_tokens {index : Nat} (read : tokens throws (.placeholder index) = .ok found) :
    ∃ throw, throws[index]? = some throw ∧ found = [.number (.int throw.total)] := by
  rw [tokens] at read
  split at read
  next throw bound => exact ⟨throw, bound, (Except.ok.inj read).symm⟩
  next => contradiction

private theorem tokens_proper {piece : Piece} (read : tokens throws piece = .ok found) : .eof ∉ found := by
  cases piece with
  | text letters => exact eof_not_mem read
  | placeholder index =>
    obtain ⟨throw, -, rfl⟩ := placeholder_tokens read
    simp

private theorem joined_proper (read : joined (tokens throws) pieces = .ok found) : .eof ∉ found := by
  induction pieces generalizing found with
  | nil =>
    obtain rfl := Except.ok.inj read
    simp
  | cons piece rest ih =>
    obtain ⟨first, others, here, there, rfl⟩ := joined_cons read
    rw [List.mem_append, not_or]
    exact ⟨tokens_proper here, ih there⟩

private theorem stands_free {piece next : Piece} {first second others : List Token} (here : tokens throws piece = .ok first)
    (there : tokens throws next = .ok second) (chain : (first ++ (second ++ others)).IsChain Meets) :
    StandsFree piece next := by
  have meets {token following} (last : token ∈ first.getLast?) (head : following ∈ (second ++ others).head?) :
      Meets token following :=
    (List.isChain_append.mp chain).2.2 token last following head
  cases next with
  | placeholder index =>
    obtain ⟨throw, -, rfl⟩ := placeholder_tokens there
    cases piece with
    | placeholder before =>
      obtain ⟨throw', -, rfl⟩ := placeholder_tokens here
      have opens := meets rfl rfl rfl
      contradiction
    | text letters =>
      intro last member
      by_contra touching
      have closes : isWordPart last = true ∨ last = ')' := by
        rw [not_and_or, Bool.not_eq_false, not_ne_iff] at touching
        exact touching
      have solid : Text.isBlank last = false := by
        rcases closes with word | rfl
        · exact isBlank_of_word word
        · decide
      obtain ⟨front, token, rfl, shows⟩ := last_token here member solid
      have apart : Meets token (.number (.int throw.total)) := meets (by simp) rfl
      have opens := apart rfl
      rw [shows.mpr closes] at opens
      contradiction
  | text letters =>
    cases piece with
    | text => trivial
    | placeholder before =>
      obtain ⟨throw, -, rfl⟩ := placeholder_tokens here
      intro first member
      by_contra touching
      have begins : first.isDigit = true ∨ first = '.' := by
        rw [not_and_or, Bool.not_eq_false, not_ne_iff] at touching
        exact touching
      obtain ⟨behind, same⟩ := List.head?_eq_some_iff.mp member
      rw [tokens, same] at there
      obtain ⟨token, others, rfl, number⟩ := first_number there begins
      have opens := meets rfl rfl number
      contradiction

/-- Where each total is one token and a tree is found, the template leaves its placeholders free. -/
theorem free_of_accepted (read : joined (tokens throws) pieces = .ok found)
    (accepted : Expression.ofSource found = .ok tree) :
    pieces.IsChain StandsFree := by
  obtain ⟨levels, derives, -⟩ := (Parsing.ofSource_ok_iff (all_tokens (joined_proper read))).mp accepted
  have chain := derives_meets derives
  clear accepted derives
  induction pieces generalizing found with
  | nil => exact List.isChain_nil
  | cons piece rest ih =>
    obtain ⟨first, others, here, there, rfl⟩ := joined_cons read
    cases rest with
    | nil => exact List.isChain_singleton _
    | cons next behind =>
      obtain ⟨second, others, here', -, rfl⟩ := joined_cons there
      exact List.isChain_cons_cons.mpr ⟨stands_free here here' chain, ih there chain.right_of_append⟩

section Written
variable {total : Int64}

private theorem all_written_neg (negative : total.toInt < 0) (lexed : all (written total) = .ok found) :
    ∃ value : Int64, found = [.minus, .number (.int value)] ∧ total.toInt = -value.toInt := by
  rw [written_neg negative, all_minus] at lexed
  cases digits : all (Nat.toDigits 10 total.toInt.natAbs) with
  | error fault =>
    rw [digits] at lexed
    contradiction
  | ok found' =>
    rw [digits] at lexed
    obtain ⟨value, rfl, same⟩ := all_toDigits_ok digits
    exact ⟨value, (Except.ok.inj lexed).symm, by omega⟩

private theorem Fused.keep_all {front : List Token} {last : Token} {tokens others : List Token} {closed : Bool}
    (fused : Fused (ends last) tokens others) : Fused closed ((front ++ [last]) ++ tokens) ((front ++ [last]) ++ others) := by
  induction front generalizing closed with
  | nil => exact .keep fused
  | cons first rest ih => exact .keep ih

private theorem written_fused {closed : Bool} {others others' : List Token} (lexed : all (written total) = .ok found)
    (opens : closed = false) (fused : Fused true others others') :
    Fused closed (found ++ others) (.number (.int total) :: others') := by
  subst opens
  by_cases nonneg : 0 ≤ total.toInt
  · obtain rfl := Except.ok.inj ((all_written_nonneg nonneg).symm.trans lexed)
    exact .keep fused
  · obtain ⟨value, rfl, negated⟩ := all_written_neg (by omega) lexed
    exact .fuse negated fused

private theorem joined_fused (bound : Bound throws pieces) (merged : Template.Merged pieces)
    (free : pieces.IsChain StandsFree)
    (solid : ∀ letters, .text letters ∈ pieces → ∀ c ∈ letters.toList, Text.isBlank c = false)
    (lexed : joined (fun piece => all (characters throws piece)) pieces = .ok spelled) :
    ∃ found, joined (tokens throws) pieces = .ok found ∧
      ∀ closed, (∀ index, pieces.head? = some (.placeholder index) → closed = false) → Fused closed spelled found := by
  induction pieces generalizing spelled with
  | nil =>
    obtain rfl := Except.ok.inj lexed
    exact ⟨[], rfl, fun closed _ => .nil⟩
  | cons piece rest ih =>
    obtain ⟨first, others, here, there, rfl⟩ := joined_cons lexed
    obtain ⟨found, joined', fused⟩ := ih (fun index member => bound index (List.mem_cons_of_mem _ member)) (merged_tail merged)
      free.tail (fun letters member => solid letters (List.mem_cons_of_mem _ member)) there
    cases piece with
    | placeholder index =>
      have inside : index < throws.length := bound index (by simp)
      rw [characters_placeholder inside] at here
      refine ⟨.number (.int throws[index].total) :: found, ?_, fun closed head => ?_⟩
      · rw [joined, tokens_placeholder inside, joined']
        rfl
      · apply written_fused here (head index rfl)
        apply fused
        intro next second
        obtain ⟨behind, rfl⟩ := List.head?_eq_some_iff.mp second
        exact (free.rel : StandsFree (.placeholder index) (.placeholder next)).elim
    | text letters =>
      have some : letters.toList ≠ [] := by simpa using merged.1
      have last := List.getLast?_eq_some_getLast some
      have visible := solid letters (by simp) _ (List.getLast_mem some)
      obtain ⟨front, token, rfl, shows⟩ := last_token here last visible
      refine ⟨(front ++ [token]) ++ found, ?_, fun closed _ => Fused.keep_all (fused _ ?_)⟩
      · rw [joined, joined', show tokens throws (.text letters) = _ from here]
        rfl
      · intro next second
        obtain ⟨behind, rfl⟩ := List.head?_eq_some_iff.mp second
        obtain ⟨plain, open'⟩ := (free.rel : StandsFree (.text letters) (.placeholder next)) _ last
        rw [Bool.eq_false_iff, ne_eq, shows, plain]
        simp [open']

end Written

/-- Where the placeholders are free, totals may as well be tokens: the expression is read, and it comes to the same. -/
theorem value_of_free {template : Template} {total : Int64} (settled : Outcome.totalOf template throws = .ok total)
    (solid : PatternText.Lettered PatternText.Solid template) (free : Free template) :
    ∃ found tree, joined (tokens throws) template.pieces = .ok found ∧ Expression.ofSource found = .ok tree ∧
      valueOf found = .ok total := by
  obtain ⟨text, tree, value, rendered, read, valued, cut⟩ := PatternText.totalOf_ok settled
  have bound := bound_of_render rendered
  obtain ⟨spelled, lexed, -⟩ := GrammarSoundness.ofSource_sound read
  obtain ⟨levels, derives, few, low⟩ := (Parsing.ofSource_ok_iff lexed).mp read
  obtain rfl := Except.ok.inj ((render_bound bound).symm.trans rendered)
  rw [String.toList_ofList, all_characters template.merged free.separated bound] at lexed
  obtain ⟨found, joined', fused⟩ := joined_fused bound template.merged free solid lexed
  obtain ⟨levels', tree', ⟨fewer, lower, same⟩, derives'⟩ := derives_fuse derives (fused false fun _ _ => rfl)
  have accepted : Expression.ofSource found = .ok tree' :=
    (Parsing.ofSource_ok_iff (all_tokens (joined_proper joined'))).mpr ⟨levels', derives', fewer.trans few, lower.trans low⟩
  refine ⟨found, tree', joined', accepted, ?_⟩
  rw [valueOf, accepted]
  exact bind_ok.mpr ⟨tree', rfl, bind_ok.mpr ⟨value, same.trans valued, cut⟩⟩

/-- The total of a roll is that of its operands exactly where every group is free. Otherwise the groups, each
taken as one operand, make no expression at all. -/
theorem rollText_operands {text : String} {words : Words} {outcome : Outcome}
    (rolled : (rollText text words).value.1 = .ok outcome) :
    (Free outcome.template → ∃ found tree, joined (tokens outcome.throws) outcome.template.pieces = .ok found ∧
      Expression.ofSource found = .ok tree ∧ valueOf found = .ok outcome.total) ∧
    (¬ Free outcome.template → ¬ ∃ found tree, joined (tokens outcome.throws) outcome.template.pieces = .ok found ∧
      Expression.ofSource found = .ok tree) := by
  obtain ⟨solid, settled⟩ := PatternText.rollText_ok rolled
  obtain ⟨-, -, settled⟩ := PatternText.ofThrows_ok settled
  refine ⟨value_of_free settled solid, fun touching => ?_⟩
  rintro ⟨found, tree, read, accepted⟩
  apply touching
  exact free_of_accepted read accepted

private theorem rolled_difference : (rollText "2*d1-d1" (Words.scripted #[] 0)).value.1 =
    .ok ⟨1, [⟨[1], [], "1d1"⟩, ⟨[1], [], "1d1"⟩], ⟨[.text "2*", .placeholder 0, .text "-", .placeholder 1], by simp [Template.Merged]⟩⟩ := by
  decide +kernel

theorem rollText_operands_apart : ∃ outcome, (rollText "2*d1-d1" (Words.scripted #[] 0)).value.1 = .ok outcome ∧
    outcome.total = 1 ∧
    ∃ found tree, joined (tokens outcome.throws) outcome.template.pieces = .ok found ∧
      Expression.ofSource found = .ok tree ∧
      valueOf found = .ok outcome.total := by
  refine ⟨_, rolled_difference, rfl, (rollText_operands rolled_difference).1 ?_⟩
  refine .cons_cons ?_ (.cons_cons ?_ (.cons_cons ?_ (.singleton _)))
  all_goals
    intro c member
    obtain rfl := Option.some.inj member
    decide

private theorem rolled_ones : (rollText "d1d1" (Words.scripted #[] 0)).value.1 =
    .ok ⟨11, [⟨[1], [], "1d1"⟩, ⟨[1], [], "1d1"⟩], ⟨[.placeholder 0, .placeholder 1], trivial⟩⟩ := by
  decide +kernel

/-- Two groups that touch are read as the digits of one number. -/
theorem rollText_joins_groups : ∃ outcome, (rollText "d1d1" (Words.scripted #[] 0)).value.1 = .ok outcome ∧
    outcome.total = 11 ∧
    ¬ ∃ found tree, joined (tokens outcome.throws) outcome.template.pieces = .ok found ∧
      Expression.ofSource found = .ok tree := by
  refine ⟨_, rolled_ones, rfl, ?_⟩
  rintro ⟨found, tree, read, accepted⟩
  exact (free_of_accepted read accepted).rel

end DiceNotation.Proofs.OneOperand

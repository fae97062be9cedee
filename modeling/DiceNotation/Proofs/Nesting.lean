import DiceNotation.Proofs.GrammarCompleteness
import DiceNotation.Proofs.GrammarSoundness
import DiceNotation.Proofs.ReadingInvariants

/-! How deep expressions may be. Two limits act on a sentence, one on the levels that its operands stand at and one on the
height of its tree, and nothing else keeps it from being read. Reading itself is never nested more deeply than that, whatever
the tokens are. -/

namespace DiceNotation.Proofs.Nesting
open Token TokenSequence Lookahead Reading Grammar GrammarCompleteness GrammarSoundness ReadingInvariants

inductive Phrase where
  | number (value : Number)
  | group (inner : Phrase)
  | call (function : Builtin) (arguments : List Phrase)
  | signed (sign : Sign) (operand : Phrase)
  | binary (operator : Operator) (left right : Phrase)

namespace Phrase

mutual
def part : Phrase → Part
  | number value => ⟨1, [.number value], .literal value⟩
  | group inner => ⟨inner.part.levels + 1, .leftParenthesis :: inner.part.tokens ++ [.rightParenthesis], inner.part.tree⟩
  | call builtin arguments =>
    ⟨deepest (parts arguments) + 1,
      .function builtin :: .leftParenthesis :: listed (parts arguments) ++ [.rightParenthesis],
      .call builtin ((parts arguments).map Part.tree)⟩
  | signed sign operand =>
    ⟨operand.part.levels + 1, signToken sign :: operand.part.tokens, .signed sign operand.part.tree⟩
  | binary operator left right =>
    ⟨max left.part.levels (right.part.levels + 1), left.part.tokens ++ operatorToken operator :: right.part.tokens,
      .binary operator left.part.tree right.part.tree⟩
termination_by structural phrase => phrase

def parts : List Phrase → List Part
  | [] => []
  | first :: rest => first.part :: parts rest
termination_by structural phrases => phrases
end

def tokens (phrase : Phrase) : List Token := phrase.part.tokens

def tree (phrase : Phrase) : Expression := phrase.part.tree

def layer : Phrase → Layer
  | number _ | group _ | call _ _ => .primary
  | signed _ _ => .factor
  | binary .add _ _ | binary .subtract _ _ => .expression
  | binary _ _ _ => .term

mutual
/-- No operand is looser than what holds it. -/
def Proper : Phrase → Prop
  | number _ => True
  | group inner => inner.Proper
  | call _ arguments => AllProper arguments
  | signed _ operand => Precedence.sign.rank < operand.layer.rank ∧ operand.Proper
  | binary operator left right =>
    operator.precedence.rank ≤ left.layer.rank ∧ operator.precedence.rank < right.layer.rank ∧ left.Proper ∧ right.Proper
termination_by structural phrase => phrase

def AllProper : List Phrase → Prop
  | [] => True
  | first :: rest => first.Proper ∧ AllProper rest
termination_by structural phrases => phrases
end

mutual
/-- The levels that the operands of a phrase stand at: its own, and one more with each pair of parentheses, each call and each
sign around an operand, and with each operator that has it on its right. -/
def levels : Phrase → Nat → List Nat
  | number _, own => [own]
  | group inner, own => own :: inner.levels (own + 1)
  | call _ arguments, own => own :: listLevels arguments (own + 1)
  | signed _ operand, own => own :: operand.levels (own + 1)
  | binary _ left right, own => left.levels own ++ right.levels (own + 1)
termination_by structural phrase => phrase

def listLevels : List Phrase → Nat → List Nat
  | [], _ => []
  | first :: rest, own => first.levels own ++ listLevels rest own
termination_by structural phrases => phrases
end

/-- Both limits are kept. -/
def Shallow (phrase : Phrase) : Prop := (∀ level ∈ phrase.levels 1, level ≤ maxDepth) ∧ height phrase.tree ≤ maxDepth

section Levels
variable {bound : Nat}

theorem levels_pos (phrase : Phrase) : 1 ≤ phrase.part.levels := by
  cases phrase <;> simp only [part] <;> omega

mutual
/-- All operands stand as deep as the bound or less where the deepest does. -/
theorem levels_le (phrase : Phrase) (own : Nat) :
    (∀ level ∈ phrase.levels own, level ≤ bound) ↔ own + phrase.part.levels ≤ bound + 1 := by
  cases phrase with
  | number value =>
    simp only [levels, part, List.forall_mem_singleton]
    omega
  | group inner =>
    have inside := levels_le inner (own + 1)
    have positive := inner.levels_pos
    simp only [levels, part, List.forall_mem_cons, inside]
    omega
  | call builtin arguments =>
    simp only [levels, part, List.forall_mem_cons]
    constructor
    · intro ⟨here, each⟩
      have inside := (listLevels_le arguments own here).mp each
      omega
    · intro low
      have here : own ≤ bound := by omega
      exact ⟨here, (listLevels_le arguments own here).mpr (by omega)⟩
  | signed sign operand =>
    have inside := levels_le operand (own + 1)
    have positive := operand.levels_pos
    simp only [levels, part, List.forall_mem_cons, inside]
    omega
  | binary operator left right =>
    have first := levels_le left own
    have second := levels_le right (own + 1)
    simp only [levels, part, List.forall_mem_append, first, second]
    omega
termination_by structural phrase

theorem listLevels_le (phrases : List Phrase) (own : Nat) (here : own ≤ bound) :
    (∀ level ∈ listLevels phrases (own + 1), level ≤ bound) ↔ own + deepest (parts phrases) ≤ bound := by
  cases phrases with
  | nil => simpa [listLevels, parts, deepest] using here
  | cons first rest =>
    have head := levels_le first (own + 1)
    have tail := listLevels_le rest own here
    simp only [listLevels, parts, deepest, List.forall_mem_append, head, tail]
    omega
termination_by structural phrases
end

theorem shallow_iff {phrase : Phrase} : phrase.Shallow ↔ Fits maxDepth phrase.part.levels phrase.tree := by
  rw [Shallow, Fits, levels_le, Nat.add_comm 1 phrase.part.levels, Nat.add_le_add_iff_right]

end Levels

theorem rank_binary (operator : Operator) (left right : Phrase) :
    (binary operator left right).layer.rank = operator.precedence.rank := by
  cases operator <;> rfl

section Sentences
variable {layer : Layer} {levels : Nat} {tokens : List Token} {tree : Expression}

mutual
theorem derives (phrase : Phrase) (proper : phrase.Proper) :
    Derives phrase.layer phrase.part.levels phrase.tokens phrase.tree := by
  cases phrase with
  | number value => exact .number value
  | group inner =>
    have inside : Derives .expression _ _ _ := (derives inner proper).widen (by cases inner.layer <;> decide)
    exact inside.group
  | call builtin arguments => exact .call builtin (derives_parts arguments proper)
  | signed sign operand =>
    obtain ⟨tight, proper⟩ := proper
    have inside : Derives .factor _ _ _ := (derives operand proper).widen tight
    exact inside.signed sign
  | binary operator left right =>
    obtain ⟨loose, tight, proper, proper'⟩ := proper
    obtain ⟨outer, rank, joined⟩ := (derives left proper).join (derives right proper') loose tight
    exact joined.widen (by rw [rank, rank_binary])
termination_by structural phrase

theorem derives_parts (phrases : List Phrase) (proper : AllProper phrases) :
    ∀ argument ∈ parts phrases, Derives .expression argument.levels argument.tokens argument.tree := by
  cases phrases with
  | nil => simp [parts]
  | cons first rest =>
    obtain ⟨here, there⟩ := proper
    have expression : Derives .expression _ _ _ := (derives first here).widen (by cases first.layer <;> decide)
    exact List.forall_mem_cons.mpr ⟨expression, derives_parts rest there⟩
termination_by structural phrases
end

private theorem exists_parts {found : List Part}
    (each : ∀ argument ∈ found, ∃ phrase : Phrase, phrase.Proper ∧ phrase.part = argument) : ∃ phrases, AllProper phrases ∧ parts phrases = found := by
  induction found with
  | nil => exact ⟨[], trivial, rfl⟩
  | cons first rest ih =>
    obtain ⟨⟨phrase, proper, same⟩, others⟩ := List.forall_mem_cons.mp each
    obtain ⟨phrases, allProper, same'⟩ := ih others
    exact ⟨phrase :: phrases, ⟨proper, allProper⟩, by rw [parts, same, same']⟩

theorem exists_phrase (derives : Derives layer levels tokens tree) :
    ∃ phrase : Phrase, phrase.Proper ∧ layer.rank ≤ phrase.layer.rank ∧ phrase.part = ⟨levels, tokens, tree⟩ := by
  induction derives with
  | number value => exact ⟨.number value, trivial, Nat.le_refl _, rfl⟩
  | group _ ih =>
    obtain ⟨inner, proper, -, same⟩ := ih
    exact ⟨.group inner, proper, Nat.le_refl _, by rw [part, same]⟩
  | call builtin _ ih =>
    obtain ⟨phrases, proper, same⟩ := exists_parts fun argument member => by
      obtain ⟨phrase, proper, -, same⟩ := ih argument member
      exact ⟨phrase, proper, same⟩
    exact ⟨.call builtin phrases, proper, Nat.le_refl _, by rw [part, same]⟩
  | signed sign _ ih =>
    obtain ⟨operand, proper, tight, same⟩ := ih
    exact ⟨.signed sign operand, ⟨tight, proper⟩, Nat.le_refl _, by rw [part, same]⟩
  | @product operator _ _ _ _ _ _ multiplicative _ _ ih ih' =>
    obtain ⟨left, proper, loose, same⟩ := ih
    obtain ⟨right, proper', tight, same'⟩ := ih'
    have rank := congrArg Precedence.rank (precedence_product multiplicative)
    refine ⟨.binary operator left right, ⟨rank ▸ loose, rank ▸ Nat.lt_of_lt_of_le (by decide) tight, proper, proper'⟩, ?_, ?_⟩
    · rw [rank_binary, rank]; decide
    · rw [part, same, same']
  | @sum operator _ _ _ _ _ _ additive _ _ ih ih' =>
    obtain ⟨left, proper, loose, same⟩ := ih
    obtain ⟨right, proper', tight, same'⟩ := ih'
    have rank := congrArg Precedence.rank (precedence_sum additive)
    refine ⟨.binary operator left right, ⟨rank ▸ loose, rank ▸ tight, proper, proper'⟩, ?_, ?_⟩
    · rw [rank_binary, rank]; decide
    · rw [part, same, same']
  | ofPrimary _ ih | ofFactor _ ih | ofTerm _ ih =>
    obtain ⟨phrase, proper, tight, same⟩ := ih
    exact ⟨phrase, proper, Nat.le_trans (by decide) tight, same⟩

/-- The sentences are the proper phrases. -/
theorem sentence_iff : Sentence tokens tree ↔ ∃ phrase : Phrase, phrase.Proper ∧ phrase.tokens = tokens ∧ phrase.tree = tree := by
  constructor
  · intro ⟨levels, derives⟩
    obtain ⟨phrase, proper, -, same⟩ := exists_phrase derives
    exact ⟨phrase, proper, congrArg Part.tokens same, congrArg Part.tree same⟩
  · rintro ⟨phrase, proper, rfl, rfl⟩
    exact ⟨_, (phrase.derives proper).widen (by cases phrase.layer <;> decide)⟩

/-- A sentence is read if it is not too deep, and this is all that can be wrong with it. -/
theorem ofText_phrase {text : String} {phrase : Phrase} (proper : phrase.Proper) (lexed : all text.toList = .ok phrase.tokens) :
    (Expression.ofText text = .ok phrase.tree ↔ phrase.Shallow) ∧
      (¬ phrase.Shallow → ∃ place, Expression.ofText text = .error ⟨.tooDeep maxDepth, some place⟩) := by
  have derives : Derives .expression _ _ _ := (phrase.derives proper).widen (by cases phrase.layer <;> decide)
  obtain ⟨taken, refused⟩ := ofSource_complete lexed derives
  rw [← shallow_iff] at taken refused
  refine ⟨⟨fun accepted => ?_, taken⟩, refused⟩
  by_contra deep
  obtain ⟨place, failed⟩ := refused deep
  exact absurd (accepted.symm.trans failed) (by simp)

end Sentences

end Phrase

section Heights
variable {σ : Type} [Source σ] {before after : Lookahead σ} {grown : Grown}

private theorem advance_moves : Keeps (fun _ : Lookahead σ => True) (fun _ => True) Anything advance where
  yields _ _ := ⟨trivial, trivial⟩
  fails _ _ := trivial

variable [LawfulSource σ]

theorem height_of_operand {room : Nat} {precedence : Precedence}
    (yields : Yields (Lookahead.operand room precedence) before grown after) :
    grown.height = height grown.tree ∧ height grown.tree ≤ maxDepth := by
  have measured := (operand_sound room yields).measured
  have low := ((operand_keeps advance_moves (fun _ _ => trivial) room precedence).yields trivial yields).2
  exact ⟨measured, measured ▸ low⟩

theorem height_of_expression {tree : Expression} (accepted : before.expression = (.ok tree, after)) :
    height tree ≤ maxDepth := by
  obtain ⟨last, yields⟩ := yields_of_expression (congrArg Prod.fst accepted)
  rw [whole, yields_bind] at yields
  obtain ⟨grown, between, taken, yields⟩ := yields
  rw [yields_get_bind] at yields
  split at yields
  · obtain ⟨rfl, -⟩ := yields_pure.mp yields
    exact (height_of_operand taken).2
  · simp at yields

end Heights

section Recursion
variable {σ : Type} [Source σ]

/-- An operand read with a count of the operands that are being read around it. If more than so many are read inside each
other, this does something else. -/
def counted (deeper : Precedence → Reading σ Grown) : (nested depth : Nat) → Precedence → Reading σ Grown
  | nested, depth, precedence =>
    if depth = maxDepth then throw (.tooDeep maxDepth)
    else
      match nested with
      | 0 => deeper precedence
      | nested + 1 => do
        let first ← primary (counted deeper nested (depth + 1))
        chain (counted deeper nested (depth + 1)) precedence (← roundLimit) first

theorem counted_eq (deeper : Precedence → Reading σ Grown) {nested depth : Nat} (enough : maxDepth ≤ depth + nested)
    (inside : depth ≤ maxDepth) (precedence : Precedence) :
    counted deeper nested depth precedence = operand (maxDepth - depth) precedence := by
  induction nested generalizing depth precedence with
  | zero =>
    obtain rfl : depth = maxDepth := Nat.le_antisymm inside enough
    rw [counted, if_pos rfl, Nat.sub_self, operand]
  | succ nested ih =>
    rw [counted]
    split
    next limit => rw [limit, Nat.sub_self, operand]
    next inner =>
      have deeper : counted deeper nested (depth + 1) = operand (maxDepth - (depth + 1)) :=
        funext (ih (by omega) (by omega))
      have room : maxDepth - depth = maxDepth - (depth + 1) + 1 := by omega
      rw [room, operand, deeper]

end Recursion

/-- Both limits are exact for what is a sentence, and hold of whatever is read and however it is read. -/
theorem depth_exact :
    (∀ tokens tree, Sentence tokens tree ↔ ∃ phrase : Phrase, phrase.Proper ∧ phrase.tokens = tokens ∧ phrase.tree = tree) ∧
    (∀ (text : String) (phrase : Phrase), phrase.Proper → all text.toList = .ok phrase.tokens →
      (Expression.ofText text = .ok phrase.tree ↔ phrase.Shallow) ∧
        (¬ phrase.Shallow → ∃ place, Expression.ofText text = .error ⟨.tooDeep maxDepth, some place⟩)) ∧
    (∀ (before after : Reader) room precedence grown, Yields (operand room precedence) before grown after →
      grown.height = height grown.tree ∧ height grown.tree ≤ maxDepth) ∧
    (∀ (before after : Reader) tree, before.expression = (.ok tree, after) → height tree ≤ maxDepth) ∧
    ∀ (deeper : Precedence → Reading (List Char) Grown) nested precedence, maxDepth ≤ nested →
      counted deeper nested 0 precedence = operand maxDepth precedence := by
  refine ⟨fun _ _ => Phrase.sentence_iff, fun _ _ => Phrase.ofText_phrase, fun _ _ _ _ _ => height_of_operand,
    fun _ _ _ => height_of_expression, fun deeper nested precedence enough => ?_⟩
  exact counted_eq deeper (by omega) (Nat.zero_le _) precedence

section Parentheses

private def nested : Nat → Phrase
  | 0 => .number (.int 7)
  | count + 1 => .group (nested count)

private def nestedText (count : Nat) : List Char :=
  List.replicate count '(' ++ '7' :: List.replicate count ')'

private theorem nested_proper (count : Nat) : (nested count).Proper := by
  induction count with
  | zero => trivial
  | succ count ih => exact ih

private theorem nested_tree (count : Nat) : (nested count).tree = .literal (.int 7) := by
  induction count with
  | zero => rfl
  | succ count ih => exact ih

private theorem nested_shallow (count : Nat) : (nested count).Shallow ↔ count + 1 ≤ maxDepth := by
  have levels : (nested count).part.levels = count + 1 := by
    induction count with
    | zero => rfl
    | succ count ih => rw [nested, Phrase.part, ih]
  rw [Phrase.shallow_iff, Fits, levels, nested_tree]
  exact and_iff_left (by decide)

private theorem nested_tokens (count : Nat) : (nested count).tokens =
    List.replicate count .leftParenthesis ++ .number (.int 7) :: List.replicate count .rightParenthesis := by
  induction count with
  | zero => rfl
  | succ count ih =>
    have around : (nested (count + 1)).tokens = .leftParenthesis :: (nested count).tokens ++ [.rightParenthesis] := rfl
    rw [around, ih, List.replicate_succ, List.replicate_succ']
    simp

private theorem all_closings (count : Nat) :
    all (List.replicate count ')') = .ok (List.replicate count .rightParenthesis) := by
  induction count with
  | zero => exact all_end rfl
  | succ count ih =>
    rw [List.replicate_succ, all_token rfl (by simp), ih]
    rfl

private theorem all_nested (count : Nat) : all (nestedText count) = .ok (nested count).tokens := by
  have openings (more : Nat) : all (List.replicate more '(' ++ '7' :: List.replicate count ')') =
      .ok (List.replicate more .leftParenthesis ++ .number (.int 7) :: List.replicate count .rightParenthesis) := by
    induction more with
    | zero =>
      have found : Source.next ('7' :: List.replicate count ')') = (.ok (.number (.int 7)), List.replicate count ')') := by
        cases count <;> rfl
      rw [List.replicate_zero, List.nil_append, all_token found (by simp), all_closings]
      rfl
    | succ more ih =>
      rw [List.replicate_succ, List.cons_append, all_token rfl (by simp), ih]
      rfl
  rw [nested_tokens]
  exact openings count

theorem depth_exact_parentheses :
    ((nested 255).Proper ∧ all (String.ofList (nestedText 255)).toList = .ok (nested 255).tokens ∧
      Expression.ofText (String.ofList (nestedText 255)) = .ok (.literal (.int 7))) ∧
    ((nested 256).Proper ∧ all (String.ofList (nestedText 256)).toList = .ok (nested 256).tokens ∧
      ∃ place, Expression.ofText (String.ofList (nestedText 256)) = .error ⟨.tooDeep 256, some place⟩) := by
  obtain ⟨-, sentences, -⟩ := depth_exact
  have lexed (count : Nat) : all (String.ofList (nestedText count)).toList = .ok (nested count).tokens := by
    rw [String.toList_ofList, all_nested]
  have read := sentences _ _ (nested_proper 255) (lexed 255)
  have refused := sentences _ _ (nested_proper 256) (lexed 256)
  refine ⟨⟨nested_proper 255, lexed 255, ?_⟩, nested_proper 256, lexed 256, ?_⟩
  · rw [← nested_tree 255]
    exact read.1.mpr ((nested_shallow 255).mpr (by decide))
  · exact refused.2 fun shallow => absurd ((nested_shallow 256).mp shallow) (by decide)

end Parentheses

end DiceNotation.Proofs.Nesting

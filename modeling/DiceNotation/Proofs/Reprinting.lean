import DiceNotation.Proofs.DecimalText

/-! Reading, printing and reading again. What is read has no negative numbers, so it is its own spelling, and the
text of a tree is read as that tree again, as long as its decimals are written plainly and its parentheses are not
too deep. -/

namespace DiceNotation.Proofs.Reprinting
open Token TokenSequence Grammar Parsing GrammarSoundness GrammarCompleteness Printing DecimalText

variable {text rest : List Char} {token : Token} {found : List Token} {tree : Expression} {value : Number}

def Unsigned : Number → Prop
  | .int value => 0 ≤ value.toInt
  | .float _ => True

section Tokens

private theorem readNumber_unsigned (read : readNumber text = (.ok (.number value), rest)) : Unsigned value := by
  rw [readNumber] at read
  split at read
  · rw [ofDecimal] at read
    split at read <;> cases read
    trivial
  · rw [ofDigits] at read
    split at read <;> cases read
    next fits =>
      rw [Unsigned, IntegerRange.fit?_eq_some.mp fits]
      exact Int.natCast_nonneg _

private theorem readSolid_unsigned (read : readSolid text = (.ok (.number value), rest)) : Unsigned value := by
  revert read
  fun_cases readSolid text with
  | case10 => exact readNumber_unsigned
  | case11 =>
    rw [readName, ofName]
    split <;> simp
  | _ => simp

theorem all_unsigned (lexed : all text = .ok found) : ∀ value, .number value ∈ found → Unsigned value := by
  induction found generalizing text with
  | nil => simp
  | cons first others ih =>
    intro value member
    obtain ⟨_, _, empty⟩ | ⟨token, rest, others', next, _, remaining, same⟩ := all_cases lexed
    · contradiction
    · obtain ⟨rfl, rfl⟩ := List.cons.inj same
      cases member with
      | head => exact readSolid_unsigned next
      | tail _ member => exact ih remaining value member

end Tokens

private theorem mem_listed {parts : List Part} {part : Part} (member : part ∈ parts) (inside : token ∈ part.tokens) :
    token ∈ listed parts := by
  induction parts with
  | nil => contradiction
  | cons first others ih =>
    by_cases last : others = []
    · subst last
      obtain rfl := List.mem_singleton.mp member
      exact inside
    · rw [listed_cons first last, List.mem_append, List.mem_cons]
      cases member with
      | head => exact .inl inside
      | tail _ member => exact .inr (.inr (ih member))

private theorem mem_allNumbers {trees : List Expression} :
    value ∈ allNumbers trees ↔ ∃ tree ∈ trees, value ∈ numbers tree := by
  induction trees with
  | nil => simp [allNumbers]
  | cons first others ih => simp [allNumbers, ih]

/-- The numbers of a tree are those of its phrase. -/
theorem numbers_derived {layer : Layer} {levels : Nat} (derives : Derives layer levels found tree) :
    ∀ value ∈ numbers tree, .number value ∈ found := by
  induction derives with
  | number value => simp [numbers]
  | group inner ih => simp_all
  | call function each ih =>
    intro value member
    rw [numbers, mem_allNumbers] at member
    obtain ⟨tree, among, inside⟩ := member
    obtain ⟨part, chosen, rfl⟩ := List.mem_map.mp among
    have listed := mem_listed chosen (ih part chosen value inside)
    simp [listed]
  | signed sign operand ih => simp_all [numbers]
  | product _ _ _ ih ih' | sum _ _ _ ih ih' =>
    intro value member
    rw [numbers, List.mem_append] at member
    rw [List.mem_append, List.mem_cons]
    exact member.imp (ih value) fun inside => .inr (ih' value inside)
  | ofPrimary _ ih | ofFactor _ ih | ofTerm _ ih => exact ih

mutual
/-- Without negative numbers a tree is its own spelling. -/
theorem spelled_unsigned (tree : Expression) (unsigned : ∀ value ∈ numbers tree, Unsigned value) :
    spelled tree = tree := by
  cases tree with
  | literal value =>
    cases value with
    | float value => rfl
    | int value =>
      have nonneg : 0 ≤ value.toInt := unsigned _ (.head _)
      have above : ¬ value < 0 := by
        rw [Int64.lt_iff_toInt_lt, Int64.toInt_zero]
        omega
      rw [spelled, spelledNumber, if_neg above]
  | signed sign operand => rw [spelled, spelled_unsigned operand unsigned]
  | binary operator left right =>
    rw [numbers, List.forall_mem_append] at unsigned
    rw [spelled, spelled_unsigned left unsigned.1, spelled_unsigned right unsigned.2]
  | call builtin arguments => rw [spelled, spelledAll_unsigned arguments unsigned]
termination_by structural tree

theorem spelledAll_unsigned (arguments : List Expression) (unsigned : ∀ value ∈ allNumbers arguments, Unsigned value) :
    spelledAll arguments = arguments := by
  cases arguments with
  | nil => rfl
  | cons first rest =>
    rw [allNumbers, List.forall_mem_append] at unsigned
    rw [spelledAll, spelled_unsigned first unsigned.1, spelledAll_unsigned rest unsigned.2]
termination_by structural arguments
end

private theorem legible_unsigned (unsigned : Unsigned value) (plain : Plain value) : Legible value := by
  cases value with
  | float value => exact legible_float plain
  | int value =>
    apply legible_int
    have least : Int64.minValue.toInt < 0 := by decide
    exact Int64.lt_iff_toInt_lt.mpr (Int.lt_of_lt_of_le least unsigned)

def ones : Nat → Expression
  | 0 => .literal (.int 1)
  | count + 1 => .binary .add (ones count) (.literal (.int 1))

def onesTokens : Nat → List Token
  | 0 => [.number (.int 1)]
  | count + 1 => onesTokens count ++ [.plus, .number (.int 1)]

def onesText : Nat → List Char
  | 0 => ['1']
  | count + 1 => onesText count ++ ['+', '1']

section Ones

private theorem reads_one : Reads ['1'] [.number (.int 1)] := by
  have legible : Legible (.int 1) := legible_int (by decide)
  exact legible

theorem reads_ones (count : Nat) : Reads (onesText count) (onesTokens count) := by
  induction count with
  | zero => exact reads_one
  | succ count ih => exact ih.append ((leads_sign .plus).append reads_one) (by simp [Substitution.Opened]) (by simp)

/-- A sum leans to the left, so only its last number stands one level down. -/
theorem derives_ones (count : Nat) : Derives .expression (min (count + 1) 2) (onesTokens count) (ones count) := by
  induction count with
  | zero => exact .ofTerm (.ofFactor (.ofPrimary (.number _)))
  | succ count ih =>
    have last : Derives .term 1 [.number (.int 1)] (.literal (.int 1)) := .ofFactor (.ofPrimary (.number _))
    have sum := Derives.sum (by decide : Operator.add ∈ [.add, .subtract]) ih last
    rwa [show max (min (count + 1) 2) (1 + 1) = min (count + 1 + 1) 2 by omega] at sum

theorem height_ones (count : Nat) : height (ones count) = count + 1 := by
  induction count with
  | zero => rfl
  | succ count ih =>
    rw [ones, height, ih, height]
    omega

/-- Each pair of parentheses around a sum that stands in another takes a level. -/
theorem need_ones (count : Nat) : need (ones (count + 1)) = count + 3 := by
  induction count with
  | zero => rfl
  | succ count ih =>
    rw [ones, need, ih, need]
    omega

private theorem numbers_ones (count : Nat) : ∀ value ∈ numbers (ones count), value = .int 1 := by
  induction count with
  | zero => simp [ones, numbers]
  | succ count ih =>
    rw [ones, numbers, List.forall_mem_append]
    exact ⟨ih, by simp [numbers]⟩

theorem legible_ones (count : Nat) : ∀ value ∈ numbers (ones count), Legible value := by
  intro value member
  rw [numbers_ones count value member]
  exact legible_int (by decide)

theorem spelled_ones (count : Nat) : spelled (ones count) = ones count := by
  apply spelled_unsigned
  intro value member
  rw [numbers_ones count value member]
  exact (by decide : (0 : Int) ≤ 1)

end Ones

/-- The text of a tree that was read is read as the same tree, unless its parentheses make it too deep. -/
theorem ofText_reprinted {source : String} (accepted : Expression.ofText source = .ok tree)
    (plain : ∀ value ∈ numbers tree, Plain value) :
    (need tree ≤ maxDepth → Expression.ofText tree.text = .ok tree) ∧
      (maxDepth < need tree → ∃ place, Expression.ofText tree.text = .error ⟨.tooDeep maxDepth, place⟩) := by
  obtain ⟨found, lexed, levels, derives⟩ := ofSource_sound accepted
  have unsigned : ∀ value ∈ numbers tree, Unsigned value := fun value member =>
    all_unsigned lexed value (numbers_derived derives value member)
  obtain ⟨taken, refused⟩ := ofText_legible fun value member => legible_unsigned (unsigned value member) (plain value member)
  rw [spelled_unsigned tree unsigned] at taken refused
  refine ⟨taken, fun deep => ?_⟩
  obtain ⟨place, failed⟩ := refused deep
  exact ⟨some place, failed⟩

private theorem exists_accepted {α : Type} {source : String} {view : Expression → α} {seen : α}
    (checked : (Expression.ofText source).toOption.map view = some seen) :
    ∃ tree, Expression.ofText source = .ok tree ∧ view tree = seen := by
  cases answer : Expression.ofText source with
  | error failure =>
    rw [answer] at checked
    contradiction
  | ok tree =>
    rw [answer] at checked
    exact ⟨tree, rfl, Option.some.inj checked⟩

theorem ofText_reprinted_decimals : ∃ tree, Expression.ofText " 2.50//.125 - 3" = .ok tree ∧
    (∀ value ∈ numbers tree, Plain value) ∧ tree.text = "((2.5 // 0.125) - 3)" ∧ Expression.ofText tree.text = .ok tree := by
  have checked : (Expression.ofText " 2.50//.125 - 3").toOption.map
      (fun tree => (decide (∀ value ∈ numbers tree, Plain value), tree.text, need tree)) =
        some (true, "((2.5 // 0.125) - 3)", 4) := by
    decide +kernel
  obtain ⟨tree, accepted, seen⟩ := exists_accepted checked
  simp only [Prod.mk.injEq, decide_eq_true_eq] at seen
  obtain ⟨plain, text, levels⟩ := seen
  exact ⟨tree, accepted, plain, text, (ofText_reprinted accepted plain).1 (levels.trans_le (by decide))⟩

private theorem ones_refused : ∃ tree place, Expression.ofText (String.ofList (onesText 255)) = .ok tree ∧
    Expression.ofText tree.text = .error ⟨.tooDeep maxDepth, some place⟩ := by
  have lexed : all (String.ofList (onesText 255)).toList = .ok (onesTokens 255) := by
    rw [String.toList_ofList]
    exact (reads_ones 255).whole
  have fits : Fits maxDepth (min (255 + 1) 2) (ones 255) := ⟨by decide, (height_ones 255).le⟩
  have accepted : Expression.ofText (String.ofList (onesText 255)) = .ok (ones 255) :=
    (ofSource_complete lexed (derives_ones 255)).1 fits
  have deep : maxDepth < need (spelled (ones 255)) := by
    rw [spelled_ones, need_ones]
    decide
  obtain ⟨place, refused⟩ := (ofText_legible (legible_ones 255)).2 deep
  exact ⟨_, place, accepted, refused⟩

/-- A text may nest deeper than its source, and a large decimal is written in a form that is no number here. -/
theorem reprinting_refused :
    (∃ tree place, Expression.ofText (String.ofList (onesText 255)) = .ok tree ∧
      Expression.ofText tree.text = .error ⟨.tooDeep maxDepth, some place⟩) ∧
    ∃ tree place, Expression.ofText "10000000000000000.0" = .ok tree ∧ tree.text = "1e16" ∧
      Expression.ofText tree.text = .error ⟨.unknownName "e16", place⟩ := by
  refine ⟨ones_refused, ?_⟩
  have checked : (Expression.ofText "10000000000000000.0").toOption.map (fun tree => tree.text) = some "1e16" := by
    decide +kernel
  obtain ⟨tree, accepted, text⟩ := exists_accepted checked
  have refused : Expression.ofText "1e16" = .error ⟨.unknownName "e16", none⟩ := rfl
  exact ⟨tree, none, accepted, text, text ▸ refused⟩

end DiceNotation.Proofs.Reprinting

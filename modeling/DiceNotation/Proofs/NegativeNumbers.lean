import DiceNotation.Proofs.IntegerRange
import DiceNotation.Proofs.Neighbours

/-! A negative number is written as a sign and a number. Where it begins an operand, one token may take the
place of the two: the phrase stays a phrase, comes to the same value and is no deeper. -/

namespace DiceNotation.Proofs.NegativeNumbers
open Token Grammar Neighbours IntegerRange

/-- Some signs are fused with the numbers behind them; none of those stands behind the end of an operand. -/
inductive Fused : (closed : Bool) → List Token → List Token → Prop where
  | nil {closed} : Fused closed [] []
  | keep {closed token tokens others} (rest : Fused (ends token) tokens others) : Fused closed (token :: tokens) (token :: others)
  | fuse {value total : Int64} {tokens others} (negated : total.toInt = -value.toInt) (rest : Fused true tokens others) :
      Fused false (.minus :: .number (.int value) :: tokens) (.number (.int total) :: others)

structure Replaces (levels : Nat) (tree : Expression) (levels' : Nat) (tree' : Expression) : Prop where
  levels : levels' ≤ levels
  height : height tree' ≤ height tree
  value : tree'.evaluate = tree.evaluate

variable {tokens others rest : List Token} {closed : Bool} {token : Token}

theorem Fused.split {front : List Token} {last : Token} (fused : Fused closed ((front ++ [last]) ++ rest) others)
    (closes : ends last = true) : ∃ first second, others = first ++ second ∧ Fused closed (front ++ [last]) first ∧
      Fused true rest second := by
  generalize same : (front ++ [last]) ++ rest = whole at fused
  induction fused generalizing front with
  | nil => simp at same
  | @keep closed token tokens others remaining ih =>
    cases front with
    | nil =>
      obtain ⟨rfl, rfl⟩ : last = token ∧ rest = tokens := by simpa using same
      rw [closes] at remaining
      exact ⟨[last], others, rfl, .keep .nil, remaining⟩
    | cons first front =>
      obtain ⟨rfl, rfl⟩ : first = token ∧ front ++ [last] ++ rest = tokens := by simpa using same
      obtain ⟨front', second, rfl, before, behind⟩ := ih rfl
      exact ⟨first :: front', second, rfl, .keep before, behind⟩
  | @fuse value total tokens others negated remaining ih =>
    match front with
    | [] =>
      obtain ⟨rfl, -⟩ : last = minus ∧ _ := by simpa using same
      contradiction
    | [sign] =>
      obtain ⟨rfl, rfl, rfl⟩ : sign = minus ∧ last = .number (.int value) ∧ rest = tokens := by simpa using same
      exact ⟨[.number (.int total)], others, rfl, .fuse negated .nil, remaining⟩
    | sign :: digits :: front =>
      obtain ⟨rfl, rfl, rfl⟩ : sign = minus ∧ digits = .number (.int value) ∧ front ++ [last] ++ rest = tokens := by
        simpa using same
      obtain ⟨front', second, rfl, before, behind⟩ := ih rfl
      exact ⟨.number (.int total) :: front', second, rfl, .fuse negated before, behind⟩

/-- Behind the end of an operand a token is kept. -/
theorem Fused.kept (fused : Fused true (token :: rest) others) :
    ∃ remaining, others = token :: remaining ∧ Fused (ends token) rest remaining := by
  cases fused with
  | keep remaining => exact ⟨_, rfl, remaining⟩

theorem Fused.plain (fused : Fused closed (token :: rest) others) (plain : token ≠ .minus) :
    ∃ remaining, others = token :: remaining ∧ Fused (ends token) rest remaining := by
  cases fused with
  | keep remaining => exact ⟨_, rfl, remaining⟩
  | fuse => contradiction

private theorem factor_number {layer : Layer} {levels : Nat} {tree : Expression} {value : Number}
    (derives : Derives layer levels (.number value :: rest) tree) (bound : Layer.rank .factor ≤ layer.rank) :
    rest = [] ∧ tree = .literal value := by
  generalize same : Token.number value :: rest = whole at derives
  induction derives with
  | number value' =>
    obtain ⟨rfl, rfl⟩ : value = value' ∧ rest = [] := by simpa using same
    exact ⟨rfl, rfl⟩
  | group | call => simp at same
  | signed sign => cases sign <;> simp [signToken] at same
  | product | sum | ofFactor | ofTerm => simp [Layer.rank] at bound
  | ofPrimary _ ih => exact ih (by decide) same

private theorem split_phrase {layer : Layer} {levels : Nat} {tree : Expression} (derives : Derives layer levels tokens tree)
    (fused : Fused closed (tokens ++ rest) others) :
    ∃ first second, others = first ++ second ∧ Fused closed tokens first ∧ Fused true rest second := by
  obtain ⟨front, last, rfl, closes⟩ := derives_ends derives
  exact fused.split closes

def Fusible (layer : Layer) (levels : Nat) (tokens : List Token) (tree : Expression) : Prop :=
  ∀ ⦃others⦄, Fused false tokens others → ∃ levels' tree', Replaces levels tree levels' tree' ∧ Derives layer levels' others tree'

private theorem binary_fused {layer inner : Layer} {operator : Operator} {levels levels' : Nat} {tokens' : List Token}
    {left right : Expression} (first : Derives layer levels tokens left) (fusible : Fusible layer levels tokens left)
    (fusible' : Fusible inner levels' tokens' right) (fused : Fused false (tokens ++ operatorToken operator :: tokens') others) :
    ∃ before behind levels₁ left' levels₂ right', others = before ++ operatorToken operator :: behind ∧
      Derives layer levels₁ before left' ∧ Derives inner levels₂ behind right' ∧
      Replaces (max levels (levels' + 1)) (.binary operator left right) (max levels₁ (levels₂ + 1)) (.binary operator left' right') := by
  obtain ⟨before, joined, rfl, fused₁, remaining⟩ := split_phrase first fused
  obtain ⟨behind, rfl, fused₂⟩ := remaining.kept
  rw [ends_operatorToken] at fused₂
  obtain ⟨levels₁, left', ⟨fewer, lower, same⟩, derives⟩ := fusible fused₁
  obtain ⟨levels₂, right', ⟨fewer', lower', same'⟩, derives'⟩ := fusible' fused₂
  refine ⟨before, behind, levels₁, left', levels₂, right', rfl, derives, derives', by omega, ?_, ?_⟩
  · simp only [height]
    omega
  · simp only [Expression.evaluate, same, same']

private theorem listed_fused {parts : List Part} (each : ∀ part ∈ parts, Derives .expression part.levels part.tokens part.tree)
    (fusible : ∀ part ∈ parts, Fusible .expression part.levels part.tokens part.tree)
    (fused : Fused false (listed parts ++ [.rightParenthesis]) others) :
    ∃ parts', others = listed parts' ++ [.rightParenthesis] ∧
      (∀ part ∈ parts', Derives .expression part.levels part.tokens part.tree) ∧ deepest parts' ≤ deepest parts ∧
      tallest (parts'.map Part.tree) ≤ tallest (parts.map Part.tree) ∧
      Expression.evaluateAll (parts'.map Part.tree) = Expression.evaluateAll (parts.map Part.tree) ∧ (parts = [] ↔ parts' = []) := by
  induction parts generalizing others with
  | nil =>
    obtain ⟨remaining, rfl, fused'⟩ := Fused.plain fused (by simp)
    cases fused'
    exact ⟨[], rfl, by simp, Nat.le_refl _, Nat.le_refl _, rfl, Iff.rfl⟩
  | cons first rest ih =>
    obtain ⟨here, there⟩ := List.forall_mem_cons.mp each
    obtain ⟨fusible', fusibles⟩ := List.forall_mem_cons.mp fusible
    by_cases alone : rest = []
    · subst alone
      obtain ⟨before, closing, rfl, fused₁, remaining⟩ := split_phrase here fused
      obtain ⟨nothing, rfl, fused₂⟩ := remaining.kept
      cases fused₂
      obtain ⟨levels, tree, ⟨fewer, lower, same⟩, derives⟩ := fusible' fused₁
      refine ⟨[⟨levels, before, tree⟩], rfl, by simpa using derives, ?_, ?_, ?_, by simp⟩
      · simpa [deepest] using fewer
      · simpa [tallest] using lower
      · simp only [List.map_cons, List.map_nil, Expression.evaluateAll, same]
    · rw [listed_cons first alone, List.append_assoc] at fused
      obtain ⟨before, behind, rfl, fused₁, remaining⟩ := split_phrase here fused
      obtain ⟨behind, rfl, fused₂⟩ := remaining.kept
      obtain ⟨parts', rfl, each', fewer', lower', same', empty⟩ := ih there fusibles fused₂
      obtain ⟨levels, tree, ⟨fewer, lower, same⟩, derives⟩ := fusible' fused₁
      have more : parts' ≠ [] := mt empty.mpr alone
      refine ⟨⟨levels, before, tree⟩ :: parts', ?_, ?_, ?_, ?_, ?_, by simp⟩
      · rw [listed_cons _ more, List.append_assoc]
        rfl
      · exact List.forall_mem_cons.mpr ⟨derives, each'⟩
      · simp only [deepest]
        omega
      · simp only [List.map_cons, tallest]
        omega
      · simp only [List.map_cons, Expression.evaluateAll, same, same']

theorem derives_fuse {layer : Layer} {levels : Nat} {tree : Expression} (derives : Derives layer levels tokens tree) :
    Fusible layer levels tokens tree := by
  induction derives with
  | number value =>
    intro others fused
    obtain ⟨remaining, rfl, fused'⟩ := Fused.plain fused (by simp)
    cases fused'
    exact ⟨1, _, ⟨Nat.le_refl _, Nat.le_refl _, rfl⟩, .number value⟩
  | @group levels tokens tree inner ih =>
    intro others fused
    obtain ⟨remaining, rfl, inside⟩ := Fused.plain fused (by simp)
    obtain ⟨before, closing, rfl, fused₁, remaining⟩ := split_phrase inner inside
    obtain ⟨nothing, rfl, fused₂⟩ := remaining.kept
    cases fused₂
    obtain ⟨levels', tree', ⟨fewer, lower, same⟩, derives⟩ := ih fused₁
    exact ⟨levels' + 1, tree', ⟨by omega, lower, same⟩, .group derives⟩
  | @call function parts each ih =>
    intro others fused
    obtain ⟨remaining, rfl, opening⟩ := Fused.plain fused (by simp)
    obtain ⟨remaining, rfl, inside⟩ := Fused.plain opening (by simp)
    obtain ⟨parts', rfl, each', fewer, lower, same, -⟩ := listed_fused each ih inside
    refine ⟨deepest parts' + 1, _, ⟨by omega, ?_, ?_⟩, .call function each'⟩
    · simpa only [height, Nat.add_le_add_iff_right] using lower
    · simp only [Expression.evaluate, same]
  | @signed sign levels tokens tree operand ih =>
    intro others fused
    generalize same : signToken sign :: tokens = whole at fused
    cases fused with
    | nil => simp at same
    | keep fused =>
      obtain ⟨rfl, rfl⟩ := List.cons.inj same
      rw [ends_signToken] at fused
      obtain ⟨levels', tree', ⟨fewer, lower, value⟩, derives⟩ := ih fused
      refine ⟨levels' + 1, _, ⟨by omega, ?_, ?_⟩, .signed sign derives⟩
      · simpa only [height, Nat.add_le_add_iff_right] using lower
      · simp only [Expression.evaluate, value]
    | @fuse value total _ remaining negated fused =>
      obtain ⟨minus, rfl⟩ := List.cons.inj same
      obtain ⟨rfl, rfl⟩ := factor_number operand (Nat.le_refl _)
      cases fused
      obtain rfl : sign = .minus := by cases sign <;> simp_all [signToken]
      refine ⟨1, _, ⟨by omega, ?_, ?_⟩, .ofPrimary (.number (.int total))⟩
      · simp [height]
      · simp only [Expression.evaluate, bind, Except.bind, Sign.apply, ← negated, ofExact_toInt]
  | product multiplicative first _ ih ih' =>
    intro others fused
    obtain ⟨before, behind, levels, left, levels', right, rfl, derives, derives', replaces⟩ := binary_fused first ih ih' fused
    exact ⟨_, _, replaces, .product multiplicative derives derives'⟩
  | sum additive first _ ih ih' =>
    intro others fused
    obtain ⟨before, behind, levels, left, levels', right, rfl, derives, derives', replaces⟩ := binary_fused first ih ih' fused
    exact ⟨_, _, replaces, .sum additive derives derives'⟩
  | ofPrimary _ ih =>
    intro others fused
    obtain ⟨levels', tree', replaces, derives⟩ := ih fused
    exact ⟨levels', tree', replaces, .ofPrimary derives⟩
  | ofFactor _ ih =>
    intro others fused
    obtain ⟨levels', tree', replaces, derives⟩ := ih fused
    exact ⟨levels', tree', replaces, .ofFactor derives⟩
  | ofTerm _ ih =>
    intro others fused
    obtain ⟨levels', tree', replaces, derives⟩ := ih fused
    exact ⟨levels', tree', replaces, .ofTerm derives⟩

end DiceNotation.Proofs.NegativeNumbers

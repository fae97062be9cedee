import DiceNotation.Proofs.Grammar
import Mathlib.Data.List.Chain

/-! Which tokens may stand side by side in a phrase. A number begins an operand, so it never follows the
end of another one. -/

namespace DiceNotation.Proofs.Neighbours
open Token Grammar

/-- A number cannot follow: an operand ends here, or a function still waits for its parenthesis. -/
def ends : Token → Bool
  | .number _ | .function _ | .rightParenthesis => true
  | _ => false

def closes : Token → Bool
  | .number _ | .rightParenthesis => true
  | _ => false

def isNumber : Token → Bool
  | .number _ => true
  | _ => false

def Meets (token next : Token) : Prop := isNumber next = true → ends token = false

variable {tokens others : List Token} {token : Token}

theorem ends_of_closes (closed : closes token = true) : ends token = true := by
  cases token <;> simp_all [closes, ends]

@[simp] theorem ends_operatorToken (operator : Operator) : ends (operatorToken operator) = false := by
  cases operator <;> rfl

@[simp] theorem ends_signToken (sign : Sign) : ends (signToken sign) = false := by
  cases sign <;> rfl

private theorem meets_of_open (opens : ends token = false) (next : Token) : Meets token next := fun _ => opens

private theorem chain_cons (opens : ends token = false) (chain : tokens.IsChain Meets) : (token :: tokens).IsChain Meets :=
  List.isChain_cons.mpr ⟨fun next _ => meets_of_open opens next, chain⟩

private theorem chain_append (first : tokens.IsChain Meets) (second : (token :: others).IsChain Meets)
    (plain : isNumber token = false) :
    (tokens ++ token :: others).IsChain Meets := by
  refine List.isChain_append.mpr ⟨first, second, fun last _ next member => ?_⟩
  obtain rfl : token = next := by simpa using member
  simp [Meets, plain]

private theorem chain_concat (first : tokens.IsChain Meets) (plain : isNumber token = false) :
    (tokens ++ [token]).IsChain Meets :=
  chain_append first (List.isChain_singleton _) plain

private theorem listed_chain {parts : List Part} (each : ∀ part ∈ parts, part.tokens.IsChain Meets) :
    (listed parts).IsChain Meets := by
  induction parts with
  | nil => exact List.isChain_nil
  | cons first rest ih =>
    obtain ⟨here, there⟩ := List.forall_mem_cons.mp each
    by_cases alone : rest = []
    · subst alone
      exact here
    · rw [listed_cons first alone]
      exact chain_append here (chain_cons rfl (ih there)) rfl

private theorem joined_chain (operator : Operator) (first : tokens.IsChain Meets) (second : others.IsChain Meets) :
    (tokens ++ operatorToken operator :: others).IsChain Meets :=
  chain_append first (chain_cons (ends_operatorToken operator) second) (by cases operator <;> rfl)

/-- No number stands next to another one, nor behind a closing parenthesis or a name. -/
theorem derives_meets {layer : Layer} {levels : Nat} {tree : Expression} (derives : Derives layer levels tokens tree) :
    tokens.IsChain Meets := by
  induction derives with
  | number value => exact List.isChain_singleton _
  | group _ inner => exact chain_cons rfl (chain_concat inner rfl)
  | call function _ each =>
    refine List.isChain_cons.mpr ⟨fun next member => ?_, chain_cons rfl (chain_concat (listed_chain each) rfl)⟩
    obtain rfl : leftParenthesis = next := by simpa using member
    simp [Meets, isNumber]
  | signed sign _ operand => exact chain_cons (ends_signToken sign) operand
  | product _ _ _ first second | sum _ _ _ first second => exact joined_chain _ first second
  | ofPrimary _ phrase | ofFactor _ phrase | ofTerm _ phrase => exact phrase

/-- Every phrase ends with a number or a closing parenthesis. -/
theorem derives_closes {layer : Layer} {levels : Nat} {tree : Expression} (derives : Derives layer levels tokens tree) :
    ∃ front last, tokens = front ++ [last] ∧ closes last = true := by
  induction derives with
  | number value => exact ⟨[], _, rfl, rfl⟩
  | @group _ tokens => exact ⟨.leftParenthesis :: tokens, _, rfl, rfl⟩
  | @call function parts => exact ⟨.function function :: .leftParenthesis :: listed parts, _, rfl, rfl⟩
  | signed sign _ operand =>
    obtain ⟨front, last, rfl, closes⟩ := operand
    exact ⟨signToken sign :: front, last, rfl, closes⟩
  | @product operator _ _ tokens _ _ _ _ _ _ _ second =>
    obtain ⟨front, last, rfl, closes⟩ := second
    exact ⟨tokens ++ operatorToken operator :: front, last, by simp, closes⟩
  | @sum operator _ _ tokens _ _ _ _ _ _ _ second =>
    obtain ⟨front, last, rfl, closes⟩ := second
    exact ⟨tokens ++ operatorToken operator :: front, last, by simp, closes⟩
  | ofPrimary _ phrase | ofFactor _ phrase | ofTerm _ phrase => exact phrase

theorem derives_ends {layer : Layer} {levels : Nat} {tree : Expression} (derives : Derives layer levels tokens tree) :
    ∃ front last, tokens = front ++ [last] ∧ ends last = true := by
  obtain ⟨front, last, rfl, closes⟩ := derives_closes derives
  exact ⟨front, last, rfl, ends_of_closes closes⟩

end DiceNotation.Proofs.Neighbours

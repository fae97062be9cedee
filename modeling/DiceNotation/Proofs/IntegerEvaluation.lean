import DiceNotation.Expression
import DiceNotation.Proofs.IntegerRange

/-! Arithmetic among integers. It is that of the integers themselves, as long as every step has a value and a word
for it; where one has not, the first such step is the fault. -/

namespace DiceNotation.Proofs.IntegerEvaluation
open IntegerRange
open Expression (Fault)

/-- The expressions that no double can come into. -/
inductive Term where
  | literal (value : Int64)
  | signed (sign : Sign) (operand : Term)
  | binary (operator : Operator) (integral : operator ≠ .divide) (left right : Term)
  | absolute (operand : Term)

def exactSign : Sign → Int → Int
  | .plus, operand => operand
  | .minus, operand => -operand

/-- Only a zero divisor leaves no value. -/
def exactOperator? : Operator → Int → Int → Option Int
  | .add, left, right => some (left + right)
  | .subtract, left, right => some (left - right)
  | .multiply, left, right => some (left * right)
  | .floorDivide, left, right => if right = 0 then none else some (left.fdiv right)
  | .divide, _, _ => none

namespace Term

def expression : Term → Expression
  | literal value => .literal (.int value)
  | signed sign operand => .signed sign operand.expression
  | binary operator _ left right => .binary operator left.expression right.expression
  | absolute operand => .call .abs [operand.expression]

def value? : Term → Option Int
  | literal value => some value.toInt
  | signed sign operand => operand.value?.map (exactSign sign)
  | binary operator _ left right => do exactOperator? operator (← left.value?) (← right.value?)
  | absolute operand => operand.value?.map fun value => value.natAbs

/-- From left to right, and operands before their operator. -/
def subterms : Term → List Term
  | literal value => [literal value]
  | signed sign operand => operand.subterms ++ [signed sign operand]
  | binary operator integral left right => left.subterms ++ right.subterms ++ [binary operator integral left right]
  | absolute operand => operand.subterms ++ [absolute operand]

def Defined (term : Term) : Prop := ∃ exact, term.value? = some exact ∧ InRange exact

inductive Failing : Term → Fault → Prop where
  | zeroDivisor {integral left right} (zero : right.value? = some 0) :
      Failing (.binary .floorDivide integral left right) .divisionByZero
  | outside {term exact} (value : term.value? = some exact) (outside : ¬ InRange exact) : Failing term .overflow

/-- All subterms before the failing one are defined. -/
def FailsFirst (term : Term) (fault : Fault) : Prop :=
  ∃ before part after, term.subterms = before ++ part :: after ∧ (∀ part ∈ before, part.Defined) ∧ part.Failing fault

end Term

open Term

/-- How a term is evaluated: to its exact value, all subterms being defined, or to the fault of the first that is not. -/
inductive Settled (term : Term) : Except Fault Number → Prop where
  | value {value : Int64} (all : ∀ part ∈ term.subterms, part.Defined) (exact : term.value? = some value.toInt) :
      Settled term (.ok (.int value))
  | fault {fault} (fails : term.FailsFirst fault) : Settled term (.error fault)

variable {term operand : Term} {fault : Fault} {exact : Int}

private theorem failing_undefined (failing : term.Failing fault) : ¬ term.Defined := by
  rintro ⟨exact, value, range⟩
  cases failing with
  | @zeroDivisor _ left right zero =>
    cases first : left.value? <;> simp [value?, exactOperator?, first, zero] at value
  | outside value' outside =>
    obtain rfl := Option.some.inj (value.symm.trans value')
    exact outside range

private theorem fails_undefined (fails : term.FailsFirst fault) : ¬ ∀ part ∈ term.subterms, part.Defined := by
  obtain ⟨before, part, after, subterms, -, failing⟩ := fails
  intro all
  exact failing_undefined failing (all part (by simp [subterms]))

private theorem fails_within (before : List Term) {after : List Term} (fails : operand.FailsFirst fault)
    (subterms : term.subterms = before ++ (operand.subterms ++ after)) (all : ∀ part ∈ before, part.Defined) :
    term.FailsFirst fault := by
  obtain ⟨front, part, back, inside, defined, failing⟩ := fails
  refine ⟨before ++ front, part, back ++ after, by simp [subterms, inside], ?_, failing⟩
  intro part member
  exact (List.mem_append.mp member).elim (all part) (defined part)

private theorem settled_ofExact {before : List Term} (subterms : term.subterms = before ++ [term])
    (all : ∀ part ∈ before, part.Defined) (value : term.value? = some exact) : Settled term (Number.ofExact exact) := by
  by_cases range : InRange exact
  · obtain ⟨word, fitted, rfl⟩ := ofExact_inRange range
    rw [fitted]
    apply Settled.value ?_ value
    intro part member
    rw [subterms, List.mem_append, List.mem_singleton] at member
    rcases member with member | rfl
    · exact all part member
    · exact ⟨_, value, range⟩
  · rw [ofExact_outside range]
    exact .fault ⟨before, term, [], subterms, all, .outside value range⟩

theorem sign_apply (sign : Sign) (operand : Int64) :
    sign.apply (.int operand) = Number.ofExact (exactSign sign operand.toInt) := by
  cases sign with
  | plus => exact (ofExact_toInt operand).symm
  | minus => rfl

theorem operator_apply {operator : Operator} (integral : operator ≠ .divide) (left right : Int64) :
    operator.apply (.int left) (.int right) =
      match exactOperator? operator left.toInt right.toInt with
      | some exact => Number.ofExact exact
      | none => .error .divisionByZero := by
  cases operator with
  | add | subtract | multiply => rfl
  | divide => contradiction
  | floorDivide =>
    by_cases zero : right = 0
    · subst zero
      rfl
    · have divisor : right.toInt ≠ 0 := fun same => zero (Int64.toInt_inj.mp same)
      have refused : (Operator.floorDivide.divides && (Number.int right).isZero) ≠ true := by
        simpa [Operator.divides, Number.isZero] using zero
      rw [Operator.apply, if_neg refused, exactOperator?, if_neg divisor]
      change Number.ofFitted (Number.floorQuotient? left right) = _
      rw [floorQuotient?_eq zero]
      rfl

private theorem binary_settled {operator : Operator} (integral : operator ≠ .divide) {first second : Term}
    {left right : Int64}
    (all : ∀ part ∈ first.subterms, part.Defined) (exact : first.value? = some left.toInt)
    (all' : ∀ part ∈ second.subterms, part.Defined) (exact' : second.value? = some right.toInt) :
    Settled (.binary operator integral first second) (operator.apply (.int left) (.int right)) := by
  have before : ∀ part ∈ first.subterms ++ second.subterms, part.Defined := by
    intro part member
    exact (List.mem_append.mp member).elim (all part) (all' part)
  have value : (Term.binary operator integral first second).value? = exactOperator? operator left.toInt right.toInt := by
    rw [value?, exact, exact']
    rfl
  rw [operator_apply integral]
  cases found : exactOperator? operator left.toInt right.toInt with
  | some result => exact settled_ofExact rfl before (value.trans found)
  | none =>
    obtain ⟨rfl, zero⟩ : operator = .floorDivide ∧ right.toInt = 0 := by
      cases operator with
      | divide => contradiction
      | _ => simp_all [exactOperator?]
    rw [zero] at exact'
    exact .fault ⟨_, _, [], rfl, before, .zeroDivisor exact'⟩

theorem evaluate_settled (term : Term) : Settled term term.expression.evaluate := by
  induction term with
  | literal value =>
    rw [expression, Expression.evaluate, ← ofExact_toInt]
    exact settled_ofExact (List.nil_append _).symm (by simp) rfl
  | signed sign operand ih =>
    rw [expression, Expression.evaluate]
    generalize operand.expression.evaluate = answer at ih ⊢
    cases ih with
    | @value value all exact =>
      change Settled _ (sign.apply (.int value))
      rw [sign_apply]
      exact settled_ofExact rfl all (by rw [value?, exact]; rfl)
    | fault fails => exact .fault (fails_within [] fails rfl (by simp))
  | binary operator integral left right ih ih' =>
    rw [expression, Expression.evaluate]
    generalize left.expression.evaluate = answer at ih ⊢
    generalize right.expression.evaluate = answer' at ih' ⊢
    cases ih with
    | fault fails => exact .fault (fails_within [] fails (List.append_assoc _ _ _) (by simp))
    | value all exact =>
      cases ih' with
      | fault fails => exact .fault (fails_within _ fails (List.append_assoc _ _ _) all)
      | value all' exact' => exact binary_settled integral all exact all' exact'
  | absolute operand ih =>
    rw [expression, Expression.evaluate, Expression.evaluateAll, Expression.evaluateAll]
    generalize operand.expression.evaluate = answer at ih ⊢
    cases ih with
    | @value value all exact =>
      change Settled _ (Number.ofExact value.toInt.natAbs)
      exact settled_ofExact rfl all (by rw [value?, exact]; rfl)
    | fault fails => exact .fault (fails_within [] fails rfl (by simp))

/-- No result is wrapped: it is exact, or refused for the first subterm that has no value or no word for it. -/
theorem evaluate_exact (term : Term) :
    (∀ value : Int64, term.expression.evaluate = .ok (.int value) ↔
      (∀ part ∈ term.subterms, part.Defined) ∧ term.value? = some value.toInt) ∧
    ((¬ ∀ part ∈ term.subterms, part.Defined) → ∃ fault, term.expression.evaluate = .error fault ∧ term.FailsFirst fault) := by
  have settled := evaluate_settled term
  generalize term.expression.evaluate = answer at settled ⊢
  cases settled with
  | @value found all exact =>
    refine ⟨fun value => ?_, fun undefined => absurd all undefined⟩
    simp only [exact, Except.ok.injEq, Number.int.injEq, Option.some.injEq, Int64.toInt_inj]
    exact ⟨fun same => ⟨all, same⟩, fun known => known.2⟩
  | @fault fault fails =>
    have undefined := fails_undefined fails
    refine ⟨fun value => ⟨?_, ?_⟩, fun _ => ⟨fault, rfl, fails⟩⟩
    · intro wrong
      contradiction
    · intro known
      exact absurd known.1 undefined

end DiceNotation.Proofs.IntegerEvaluation

import DiceNotation.Expression.Reader

/-! The language of expressions, apart from any way of reading it. Each phrase comes with its tree and
with the levels of nesting that its deepest operand stands at; sums and products lean to the left. -/

namespace DiceNotation.Proofs.Grammar

def signToken : Sign → Token
  | .plus => .plus
  | .minus => .minus

def operatorToken : Operator → Token
  | .add => .plus
  | .subtract => .minus
  | .multiply => .multiply
  | .divide => .divide
  | .floorDivide => .floorDivide

inductive Layer where
  | expression
  | term
  | factor
  | primary

structure Part where
  levels : Nat
  tokens : List Token
  tree : Expression

def deepest : List Part → Nat
  | [] => 0
  | first :: rest => max first.levels (deepest rest)

def listed : List Part → List Token
  | [] => []
  | [last] => last.tokens
  | first :: rest => first.tokens ++ .comma :: listed rest

inductive Derives : Layer → (levels : Nat) → List Token → Expression → Prop where
  | number (value : Number) : Derives .primary 1 [.number value] (.literal value)
  | group {levels tokens tree} (inner : Derives .expression levels tokens tree) :
      Derives .primary (levels + 1) (.leftParenthesis :: tokens ++ [.rightParenthesis]) tree
  | call (function : Builtin) {parts : List Part}
      (each : ∀ part ∈ parts, Derives .expression part.levels part.tokens part.tree) :
      Derives .primary (deepest parts + 1) (.function function :: .leftParenthesis :: listed parts ++ [.rightParenthesis])
        (.call function (parts.map Part.tree))
  | signed (sign : Sign) {levels tokens tree} (operand : Derives .factor levels tokens tree) :
      Derives .factor (levels + 1) (signToken sign :: tokens) (.signed sign tree)
  | product {operator : Operator} {levels levels' tokens tokens' left right}
      (multiplicative : operator ∈ [.multiply, .divide, .floorDivide])
      (first : Derives .term levels tokens left) (second : Derives .factor levels' tokens' right) :
      Derives .term (max levels (levels' + 1)) (tokens ++ operatorToken operator :: tokens') (.binary operator left right)
  | sum {operator : Operator} {levels levels' tokens tokens' left right} (additive : operator ∈ [.add, .subtract])
      (first : Derives .expression levels tokens left) (second : Derives .term levels' tokens' right) :
      Derives .expression (max levels (levels' + 1)) (tokens ++ operatorToken operator :: tokens') (.binary operator left right)
  | ofPrimary {levels tokens tree} (phrase : Derives .primary levels tokens tree) : Derives .factor levels tokens tree
  | ofFactor {levels tokens tree} (phrase : Derives .factor levels tokens tree) : Derives .term levels tokens tree
  | ofTerm {levels tokens tree} (phrase : Derives .term levels tokens tree) : Derives .expression levels tokens tree

def Sentence (tokens : List Token) (tree : Expression) : Prop :=
  ∃ levels, Derives .expression levels tokens tree

mutual
def height : Expression → Nat
  | .literal _ => 1
  | .signed _ operand => height operand + 1
  | .binary _ left right => max (height left) (height right) + 1
  | .call _ arguments => tallest arguments + 1
termination_by structural expression => expression

def tallest : List Expression → Nat
  | [] => 0
  | first :: rest => max (height first) (tallest rest)
termination_by structural expressions => expressions
end

@[simp] theorem operator?_operatorToken (operator : Operator) : (operatorToken operator).operator? = some operator := by
  cases operator <;> rfl

theorem eq_operatorToken {token : Token} {operator : Operator} (found : token.operator? = some operator) :
    token = operatorToken operator := by
  cases token <;> simp only [Token.operator?, Option.some.injEq, reduceCtorEq] at found <;> subst found <;> rfl

theorem listed_cons (first : Part) {rest : List Part} (some : rest ≠ []) :
    listed (first :: rest) = first.tokens ++ .comma :: listed rest := by
  cases rest with
  | nil => contradiction
  | cons => rfl

/-- How tightly a token holds the operands on its two sides; only operators hold any. -/
def grip (token : Token) : Nat :=
  match token.operator? with
  | some operator => operator.precedence.rank
  | none => 0

@[simp] theorem grip_operatorToken (operator : Operator) : grip (operatorToken operator) = operator.precedence.rank := by
  simp [grip]

/-- The operands held by a precedence are phrases of the layers of higher rank. -/
def Layer.rank : Layer → Nat
  | expression => 2
  | term => 3
  | factor => 5
  | primary => 6

theorem grip_le (token : Token) : grip token ≤ Layer.rank .term := by
  cases token <;> simp [grip, Token.operator?, Operator.precedence, Precedence.rank, Layer.rank]

theorem precedence_sum {operator : Operator} (additive : operator ∈ [.add, .subtract]) : operator.precedence = .sum := by
  cases operator <;> first | rfl | contradiction

theorem precedence_product {operator : Operator} (multiplicative : operator ∈ [.multiply, .divide, .floorDivide]) :
    operator.precedence = .product := by
  cases operator <;> first | rfl | contradiction

namespace Derives
variable {layer : Layer} {levels : Nat} {tokens : List Token} {tree : Expression}

theorem widen {other : Layer} (phrase : Derives layer levels tokens tree) (wider : other.rank ≤ layer.rank) :
    Derives other levels tokens tree := by
  cases layer with
  | expression => cases other <;> first | exact phrase | simp [Layer.rank] at wider
  | term =>
    cases other with
    | expression => exact ofTerm phrase
    | term => exact phrase
    | _ => simp [Layer.rank] at wider
  | factor =>
    cases other with
    | expression => exact ofTerm (ofFactor phrase)
    | term => exact ofFactor phrase
    | factor => exact phrase
    | primary => simp [Layer.rank] at wider
  | primary =>
    cases other with
    | expression => exact ofTerm (ofFactor (ofPrimary phrase))
    | term => exact ofFactor (ofPrimary phrase)
    | factor => exact ofPrimary phrase
    | primary => exact phrase

/-- A phrase that an operator may follow, the operator, and an operand that it holds. -/
theorem join {operator : Operator} {inner : Layer} {levels' : Nat} {tokens' : List Token} {right : Expression}
    (first : Derives layer levels tokens tree) (second : Derives inner levels' tokens' right)
    (loose : operator.precedence.rank ≤ layer.rank) (tight : operator.precedence.rank < inner.rank) :
    ∃ outer : Layer, outer.rank = operator.precedence.rank ∧
      Derives outer (max levels (levels' + 1)) (tokens ++ operatorToken operator :: tokens') (.binary operator tree right) := by
  have product (same : operator.precedence = .product) :
      Derives .term levels tokens tree ∧ Derives .factor levels' tokens' right := by
    rw [same] at loose tight
    exact ⟨first.widen loose, second.widen (by cases inner <;> simp_all [Layer.rank, Precedence.rank])⟩
  have sum (same : operator.precedence = .sum) :
      Derives .expression levels tokens tree ∧ Derives .term levels' tokens' right := by
    rw [same] at loose tight
    exact ⟨first.widen loose, second.widen tight⟩
  cases operator with
  | add => exact ⟨.expression, rfl, Derives.sum (by decide) (sum rfl).1 (sum rfl).2⟩
  | subtract => exact ⟨.expression, rfl, Derives.sum (by decide) (sum rfl).1 (sum rfl).2⟩
  | multiply => exact ⟨.term, rfl, Derives.product (by decide) (product rfl).1 (product rfl).2⟩
  | divide => exact ⟨.term, rfl, Derives.product (by decide) (product rfl).1 (product rfl).2⟩
  | floorDivide => exact ⟨.term, rfl, Derives.product (by decide) (product rfl).1 (product rfl).2⟩

theorem levels_pos (phrase : Derives layer levels tokens tree) : 1 ≤ levels := by
  induction phrase with
  | number | group | call | signed => omega
  | product _ _ _ first | sum _ _ _ first => omega
  | ofPrimary _ phrase | ofFactor _ phrase | ofTerm _ phrase => exact phrase

theorem begins (phrase : Derives layer levels tokens tree) :
    ∃ first others, tokens = first :: others ∧ first ≠ .rightParenthesis := by
  induction phrase with
  | number | group | call => exact ⟨_, _, rfl, by simp⟩
  | signed sign => exact ⟨_, _, rfl, by cases sign <;> simp [signToken]⟩
  | product _ _ _ first | sum _ _ _ first =>
    obtain ⟨token, others, rfl, proper⟩ := first
    exact ⟨token, _, rfl, proper⟩
  | ofPrimary _ phrase | ofFactor _ phrase | ofTerm _ phrase => exact phrase

end Derives

theorem length_le_listed {parts : List Part} (some : ∀ part ∈ parts, part.tokens ≠ []) :
    parts.length ≤ (listed parts).length := by
  induction parts with
  | nil => exact Nat.zero_le _
  | cons first rest ih =>
    obtain ⟨here, there⟩ := List.forall_mem_cons.mp some
    have positive : 0 < first.tokens.length := List.length_pos_iff.mpr here
    cases rest with
    | nil => exact positive
    | cons second others =>
      have bound := ih there
      simp only [listed, List.length_append, List.length_cons] at bound ⊢
      omega

theorem deepest_le {parts : List Part} {bound : Nat} : deepest parts ≤ bound ↔ ∀ part ∈ parts, part.levels ≤ bound := by
  induction parts with
  | nil => simp [deepest]
  | cons first rest ih => simp only [deepest, Nat.max_le, ih, List.forall_mem_cons]

theorem tallest_le {trees : List Expression} {bound : Nat} : tallest trees ≤ bound ↔
    ∀ tree ∈ trees, height tree ≤ bound := by
  induction trees with
  | nil => simp [tallest]
  | cons first rest ih => simp only [tallest, Nat.max_le, ih, List.forall_mem_cons]

end DiceNotation.Proofs.Grammar

import DiceNotation.Expression.Operation

/-! Arithmetic expressions as trees. Every operation is written in parentheses of its own, and
evaluation goes from left to right and stops at the first fault. -/

namespace DiceNotation

inductive Expression where
  | literal (value : Number)
  | signed (sign : Sign) (operand : Expression)
  | binary (operator : Operator) (left right : Expression)
  | call (function : Builtin) (arguments : List Expression)

namespace Expression

mutual
def evaluate : Expression → Except Fault Number
  | literal value => .ok value
  | signed sign operand => do sign.apply (← operand.evaluate)
  | binary operator left right => do
    let left ← left.evaluate
    let right ← right.evaluate
    operator.apply left right
  | call function arguments => do function.apply (← evaluateAll arguments)
termination_by structural expression => expression

def evaluateAll : List Expression → Except Fault (List Number)
  | [] => .ok []
  | first :: rest => do
    let first ← first.evaluate
    let rest ← evaluateAll rest
    return first :: rest
termination_by structural expressions => expressions
end

mutual
def text : Expression → String
  | literal value => value.text
  | signed sign operand => sign.symbol ++ operand.text
  | binary operator left right =>
    "(" ++ left.text ++ " " ++ operator.symbol ++ " " ++ right.text ++ ")"
  | call function arguments => function.name ++ "(" ++ listText arguments ++ ")"
termination_by structural expression => expression

def listText : List Expression → String
  | [] => ""
  | [last] => last.text
  | first :: rest => first.text ++ ", " ++ listText rest
termination_by structural expressions => expressions
end

mutual
def beq : Expression → Expression → Bool
  | literal first, literal second => first == second
  | signed sign operand, signed sign' operand' => sign == sign' && operand.beq operand'
  | binary operator left right, binary operator' left' right' =>
    operator == operator' && left.beq left' && right.beq right'
  | call function arguments, call function' arguments' =>
    function == function' && listBeq arguments arguments'
  | _, _ => false
termination_by structural first => first

def listBeq : List Expression → List Expression → Bool
  | [], [] => true
  | first :: rest, first' :: rest' => first.beq first' && listBeq rest rest'
  | _, _ => false
termination_by structural first => first
end

instance : BEq Expression := ⟨beq⟩

end Expression

end DiceNotation

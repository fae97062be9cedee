/-! What can be wrong with an expression, and where. A fault that has been given a place keeps
it. -/

namespace DiceNotation.Expression

inductive Fault where
  | invalidCharacter (c : Char)
  | invalidNumber (text : String)
  | unknownName (name : String)
  | empty
  | unclosedParenthesis
  | unexpectedStart (token : String)
  | unexpectedOperator (token : String)
  | trailing (token : String)
  | arity (function expected : String) (got : Nat)
  | divisionByZero
  | overflow
  | notFinite
  | tooDeep (levels : Nat)
  | unboundPlaceholder (index : Nat)
deriving DecidableEq, Repr

def Fault.message : Fault → String
  | invalidCharacter c => "Invalid token: " ++ String.singleton c
  | invalidNumber text => s!"Invalid number: {text}"
  | unknownName name => s!"Name '{name}' is not allowed"
  | empty => "Expression is empty"
  | unclosedParenthesis => "Parenthesis was not closed"
  | unexpectedStart token => s!"Unexpected prefix: {token}"
  | unexpectedOperator token => s!"Unexpected infix: {token}"
  | trailing token => s!"Unexpected trailing input: {token}"
  | arity function expected got =>
    s!"Function {function}() expects {expected} argument(s), got {got}"
  | divisionByZero => "Division by zero"
  | overflow => "Integer overflow"
  | notFinite => "Result is not a finite number"
  | tooDeep levels => s!"Expression is nested deeper than {levels} levels"
  | unboundPlaceholder index => s!"Placeholder \x7b{index}\x7d has no score to substitute"

/-- A fault with the number of characters read before it was decided, where that is known. -/
structure Failure where
  fault : Fault
  position : Option Nat := none
deriving DecidableEq, Repr

namespace Failure

def place (failure : Failure) (position : Nat) : Failure :=
  { failure with position := failure.position <|> some position }

def message (failure : Failure) : String :=
  match failure.position with
  | some position => s!"At position {position} - {failure.fault.message}"
  | none => failure.fault.message

end Failure

end DiceNotation.Expression

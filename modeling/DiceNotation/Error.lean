import DiceNotation.Dice
import DiceNotation.Expression.Fault

/-! The ways in which reading, compiling and rolling a pattern fail. -/

namespace DiceNotation

inductive Error where
  | malformed (text : String)
  | invalid (violation : Dice.Violation)
  | arithmetic (failure : Expression.Failure)
  | missingThrow (index count : Nat)
deriving DecidableEq, Repr

def Error.message : Error → String
  | malformed text => s!"Invalid dice pattern ('{text}')"
  | invalid violation => violation.message
  | arithmetic failure => s!"Evaluation error - {failure.message}"
  | missingThrow index count => s!"No score at index {index} (pattern rolled {count} dice)"

end DiceNotation

/-! Arithmetic with the total of a throw or of a whole pattern. Sums, differences and products
wrap at 64 bits as those of Int64 do; only a quotient can be refused. -/

namespace DiceNotation.Total

inductive Fault where
  | zeroDivisor
  | overflow
deriving DecidableEq, Repr

def Fault.message : Fault → String
  | zeroDivisor => "attempt to divide by zero"
  | overflow => "attempt to divide with overflow"

/-- Rounds toward zero. The one quotient that has no word of its own is that of the least
total and -1. -/
def quotient (dividend divisor : Int64) : Except Fault Int64 :=
  if divisor = 0 then .error .zeroDivisor
  else if dividend = Int64.minValue ∧ divisor = -1 then .error .overflow
  else .ok (dividend / divisor)

end DiceNotation.Total

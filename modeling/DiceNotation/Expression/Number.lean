import DiceNotation.Decimal.Shortest
import DiceNotation.Expression.Fault

/-! The numbers of expressions: 64-bit integers and doubles. Integer arithmetic is exact or
refused; an integer that meets a double is rounded to one first. -/

namespace DiceNotation

open Expression (Fault)

inductive Number where
  | int (value : Int64)
  | float (value : Float)

namespace Number

/-- Doubles compare as doubles do: no NaN equals itself, and the two zeros are equal. An integer
equals no double. -/
instance : BEq Number where
  beq
    | int first, int second => first == second
    | float first, float second => first == second
    | _, _ => false

def fit? (exact : Int) : Option Int64 :=
  if Int64.minValue.toInt ≤ exact ∧ exact ≤ Int64.maxValue.toInt then some (Int64.ofInt exact)
  else none

def ofFitted : Option Int64 → Except Fault Number
  | some value => .ok (int value)
  | none => .error .overflow

def ofExact (exact : Int) : Except Fault Number :=
  ofFitted (fit? exact)

/-- Division of words stops the program at a zero divisor, and where the least word is divided
by -1. Quotients and remainders are only taken after this has been ruled out. -/
def Divisible (left right : Int64) : Prop :=
  right ≠ 0 ∧ ¬(left = Int64.minValue ∧ right = -1)

instance (left right : Int64) : Decidable (Divisible left right) :=
  inferInstanceAs (Decidable (_ ∧ _))

/-- Cut toward zero. -/
def quotient (left right : Int64) (_ : Divisible left right) : Int64 := left / right

/-- Of the sign of `left`. -/
def remainder (left right : Int64) (_ : Divisible left right) : Int64 := left % right

/-- The cut quotient lies above the floor where something was cut off and the signs differ. -/
def floorQuotient? (left right : Int64) : Option Int64 :=
  if divisible : Divisible left right then
    let cut := quotient left right divisible
    if remainder left right divisible ≠ 0 ∧ decide (left < 0) ≠ decide (right < 0) then
      fit? (cut.toInt - 1)
    else some cut
  else none

def toFloat : Number → Float
  | int value => Float.ofInt value.toInt
  | float value => value

/-- Cuts toward zero. What has no whole part or too large a one is refused alike. -/
def toInteger : Number → Except Fault Int64
  | int value => .ok value
  | float value =>
    match (Decimal.Binary.ofFloat value).truncate? >>= fit? with
    | some whole => .ok whole
    | none => .error .notFinite

def isZero : Number → Bool
  | int value => value == 0
  | float value => value == 0

def text : Number → String
  | int value => toString value.toInt
  | float value => String.ofList (Decimal.Binary.ofFloat value).text

end Number

end DiceNotation

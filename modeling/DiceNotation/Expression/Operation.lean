import DiceNotation.Expression.Number

/-! What expressions compute with: two signs, five operators between numbers, and three named
functions. -/

namespace DiceNotation

open Expression (Fault)

inductive Sign where
  | plus
  | minus
deriving DecidableEq, Repr

namespace Sign

def symbol : Sign → String
  | plus => "+"
  | minus => "-"

def apply : Sign → Number → Except Fault Number
  | plus, operand => .ok operand
  | minus, .int value => Number.ofExact (-value.toInt)
  | minus, .float value => .ok (.float (-value))

end Sign

inductive Operator where
  | add
  | subtract
  | multiply
  | divide
  | floorDivide
deriving DecidableEq, Repr

namespace Operator

def symbol : Operator → String
  | add => "+"
  | subtract => "-"
  | multiply => "*"
  | divide => "/"
  | floorDivide => "//"

def divides : Operator → Bool
  | divide | floorDivide => true
  | _ => false

def applyFloat : Operator → Float → Float → Float
  | add, left, right => left + right
  | subtract, left, right => left - right
  | multiply, left, right => left * right
  | divide, left, right => left / right
  | floorDivide, left, right => (left / right).floor

def onFloats (operator : Operator) (left right : Number) : Number :=
  .float (operator.applyFloat left.toFloat right.toFloat)

/-- Stays among the integers, for those operators that do. -/
def onIntegers? : Operator → Int64 → Int64 → Option (Except Fault Number)
  | add, left, right => some (Number.ofExact (left.toInt + right.toInt))
  | subtract, left, right => some (Number.ofExact (left.toInt - right.toInt))
  | multiply, left, right => some (Number.ofExact (left.toInt * right.toInt))
  | divide, _, _ => none
  | floorDivide, left, right => some (Number.ofFitted (Number.floorQuotient? left right))

def applyNonzero (operator : Operator) (left right : Number) : Except Fault Number :=
  match left, right with
  | .int first, .int second =>
    (operator.onIntegers? first second).getD (.ok (operator.onFloats left right))
  | _, _ => .ok (operator.onFloats left right)

/-- A zero divisor is refused for doubles too, whatever its sign. -/
def apply (operator : Operator) (left right : Number) : Except Fault Number :=
  if operator.divides && right.isZero then .error .divisionByZero
  else operator.applyNonzero left right

end Operator

inductive Builtin where
  | abs
  | max
  | min
deriving DecidableEq, Repr

namespace Builtin

def name : Builtin → String
  | abs => "abs"
  | max => "max"
  | min => "min"

def all : List Builtin := [abs, max, min]

def ofName? (name : String) : Option Builtin :=
  all.find? (·.name == name)

def expected : Builtin → String
  | abs => "1"
  | max | min => "at least 2"

/-- Keeps the first of two numbers that compare as equal doubles, so integers closer to each
other than doubles lie are not told apart. -/
def further (function : Builtin) (current candidate : Number) : Number :=
  match function with
  | max => if current.toFloat < candidate.toFloat then candidate else current
  | _ => if candidate.toFloat < current.toFloat then candidate else current

def apply (function : Builtin) (arguments : List Number) : Except Fault Number :=
  match function, arguments with
  | abs, [.int value] => Number.ofExact value.toInt.natAbs
  | abs, [.float value] => .ok (.float value.abs)
  | max, first :: second :: others | min, first :: second :: others =>
    .ok ((second :: others).foldl function.further first)
  | _, _ => .error (.arity function.name function.expected arguments.length)

end Builtin

end DiceNotation

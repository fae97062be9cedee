/-! Doubles as exact numbers: a sign, a whole mantissa and a power of two. -/

namespace DiceNotation.Decimal

inductive Binary where
  | nan
  | infinite (negative : Bool)
  | finite (negative : Bool) (mantissa : Nat) (exponent : Int)
deriving DecidableEq, Repr

namespace Binary

def leastExponent : Int := -1074

/-- The least mantissa of a double that is not subnormal, two to the power of 52. -/
def leadingBit : Nat := 0x10000000000000

/-- The fraction has 52 bits and the scale above it has 11, both below the sign. -/
def ofFloat (x : Float) : Binary :=
  let bits := x.toBits.toNat
  let negative := decide (0x8000000000000000 ≤ bits)
  let scale : Nat := bits / leadingBit % 0x800
  let fraction : Nat := bits % leadingBit
  if scale = 0x7FF then
    if fraction = 0 then infinite negative else nan
  else if scale = 0 then finite negative fraction leastExponent
  else finite negative (leadingBit + fraction) (leastExponent + (scale - 1))

def signed (negative : Bool) (magnitude : Nat) : Int :=
  if negative then -magnitude else magnitude

/-- The whole part of a number that has one, cut toward zero. -/
def truncate? : Binary → Option Int
  | finite negative mantissa exponent =>
    some (signed negative (mantissa * Nat.pow 2 exponent.toNat / Nat.pow 2 (-exponent).toNat))
  | _ => none

end Binary

end DiceNotation.Decimal

import DiceNotation.Decimal.Binary

/-! The shortest decimal that reads back as a given double, and its two written forms. Of all
decimals nearer to the double than to its neighbours, the one on the coarsest power of ten is
chosen, and of two on that grid the nearer one, or the larger where both are as near. -/

namespace DiceNotation

/-- The number `digits * 10 ^ exponent`. -/
structure Decimal where
  digits : Nat
  exponent : Int
deriving DecidableEq, Repr

namespace Decimal

/-- The reals that round to `centre * 2 ^ unit`, counted in quarters of the last binary place. -/
structure Basin where
  low : Nat
  centre : Nat
  high : Nat
  closed : Bool
  unit : Int

namespace Basin

/-- Below a power of two the doubles lie twice as close, so the basin ends sooner there. An even
mantissa attracts the two midpoints. -/
def ofFinite (mantissa : Nat) (exponent : Int) : Basin where
  low :=
    4 * mantissa -
      if mantissa = Binary.leadingBit ∧ exponent ≠ Binary.leastExponent then 1 else 2
  centre := 4 * mantissa
  high := 4 * mantissa + 2
  closed := mantissa % 2 = 0
  unit := exponent - 2

variable (basin : Basin)

/-- The integers `binary` and `grid` are to each other as `2 ^ unit` is to `10 ^ place`. -/
def binary (place : Int) : Nat :=
  Nat.pow 2 basin.unit.toNat * Nat.pow 10 (-place).toNat

def grid (place : Int) : Nat :=
  Nat.pow 10 place.toNat * Nat.pow 2 (-basin.unit).toNat

def holds (place : Int) (digits : Nat) : Bool :=
  let point := digits * basin.grid place
  let low := basin.low * basin.binary place
  let high := basin.high * basin.binary place
  if basin.closed then low ≤ point && point ≤ high else low < point && point < high

def floor (place : Int) : Nat :=
  basin.centre * basin.binary place / basin.grid place

def nearerBelow (place : Int) : Bool :=
  2 * (basin.centre * basin.binary place % basin.grid place) < basin.grid place

def point? (place : Int) : Option Nat :=
  let below := basin.floor place
  match basin.holds place below, basin.holds place (below + 1) with
  | false, false => none
  | true, false => some below
  | false, true => some (below + 1)
  | true, true => some (if basin.nearerBelow place then below else below + 1)

/-- Tries `tries` grids, each ten times as fine as the one before, and settles for cutting the
digits where none of them holds a point of the basin. -/
def search : Nat → Int → Decimal
  | 0, place => ⟨basin.floor place, place⟩
  | tries + 1, place =>
    match basin.point? place with
    | some digits => ⟨digits, place⟩
    | none => search tries (place - 1)

end Basin

/-- No basin reaches 10 ^ `topPlace`, and the factor is a little more than the decimal logarithm
of two. -/
def topPlace (mantissa : Nat) (exponent : Int) : Int :=
  (exponent + mantissa.log2 + 1) * 30103 / 100000 + 2

/-- Seventeen digits tell any two doubles apart, and the first few grids may be too coarse to
hold any digit at all. -/
def shortest (mantissa : Nat) (exponent : Int) : Decimal :=
  (Basin.ofFinite mantissa exponent).search 24 (topPlace mantissa exponent)

variable (decimal : Decimal)

def leadingPlace : Int :=
  decimal.exponent + (Nat.toDigits 10 decimal.digits).length - 1

/-- At least one digit stands on either side of the point. -/
def positional : List Char :=
  let digits := Nat.toDigits 10 decimal.digits
  if 0 ≤ decimal.exponent then
    digits ++ List.replicate decimal.exponent.toNat '0' ++ ['.', '0']
  else
    let places := (-decimal.exponent).toNat
    let padded := List.replicate (places + 1 - digits.length) '0' ++ digits
    padded.take (padded.length - places) ++ '.' :: padded.drop (padded.length - places)

/-- The point is left out where no digit would follow it. -/
def scientific : List Char :=
  match Nat.toDigits 10 decimal.digits with
  | [] => []
  | leading :: others =>
    leading :: (if others.isEmpty then [] else '.' :: others)
      ++ 'e' :: (toString decimal.leadingPlace).toList

/-- Positional from a ten-thousandth up to, and not including, ten to the sixteenth. -/
def text : List Char :=
  if -4 ≤ decimal.leadingPlace ∧ decimal.leadingPlace < 16 then decimal.positional
  else decimal.scientific

namespace Binary

def signText (negative : Bool) : List Char :=
  if negative then ['-'] else []

def text : Binary → List Char
  | nan => ['N', 'a', 'N']
  | infinite negative => signText negative ++ ['i', 'n', 'f']
  | finite negative mantissa exponent =>
    signText negative ++
      if mantissa = 0 then ['0', '.', '0'] else (shortest mantissa exponent).text

end Binary

end Decimal

end DiceNotation

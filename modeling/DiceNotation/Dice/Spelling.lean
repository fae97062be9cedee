import DiceNotation.Error
import DiceNotation.Text.Normal

/-! How groups are spelled: an amount, the letter d, a number of sides, and after these an l and
an h, each with a number of dice to drop. Every number may be left out, and a group ends where
the next character cannot belong to it. -/

namespace DiceNotation

namespace Dice

/-- The digits of each number as they stand, and none at all where a letter stands alone. -/
structure Spelling where
  amount : List Char
  sides : List Char
  lowest : Option (List Char) := none
  highest : Option (List Char) := none
deriving DecidableEq, Repr

namespace Spelling

def readDrop (mark : Char) : List Char → Option (List Char) × List Char
  | [] => (none, [])
  | c :: text =>
    if c = mark then (some (text.takeWhile Char.isDigit), text.dropWhile Char.isDigit)
    else (none, c :: text)

/-- The group that stands first in a text, and what follows it. -/
def read? (text : List Char) : Option (Spelling × List Char) :=
  match text.dropWhile Char.isDigit with
  | 'd' :: afterLetter =>
    let (lowest, afterLowest) := readDrop 'l' (afterLetter.dropWhile Char.isDigit)
    let (highest, rest) := readDrop 'h' afterLowest
    let amount := text.takeWhile Char.isDigit
    let sides := afterLetter.takeWhile Char.isDigit
    some ({ amount, sides, lowest, highest }, rest)
  | _ => none

theorem length_dropWhile_le (p : Char → Bool) (text : List Char) :
    (text.dropWhile p).length ≤ text.length :=
  (List.dropWhile_sublist p).length_le

theorem length_readDrop_le (mark : Char) (text : List Char) :
    (readDrop mark text).2.length ≤ text.length := by
  match text with
  | [] => simp [readDrop]
  | c :: text =>
    have shorter := length_dropWhile_le Char.isDigit text
    simp only [readDrop]
    split <;> simp only [List.length_cons] <;> omega

theorem length_of_read? {text rest : List Char} {spelling : Spelling}
    (found : read? text = some (spelling, rest)) : rest.length < text.length := by
  have whole := length_dropWhile_le Char.isDigit text
  unfold read? at found
  split at found
  · rename_i afterLetter remaining
    have sides := length_dropWhile_le Char.isDigit afterLetter
    have lowest := length_readDrop_le 'l' (afterLetter.dropWhile Char.isDigit)
    have highest := length_readDrop_le 'h' (readDrop 'l' (afterLetter.dropWhile Char.isDigit)).2
    simp only [Option.some.injEq, Prod.mk.injEq] at found
    rw [← found.2]
    rw [remaining, List.length_cons] at whole
    omega
  · contradiction

/-- Leading zeros are allowed in any number, and an omitted number has a standard value. -/
def number (field : Field) (standard : UInt32) (digits : List Char) : Except Violation UInt32 :=
  if digits = [] then .ok standard
  else
    let value := Nat.ofDigitChars 10 digits 0
    if value < UInt32.size then .ok (UInt32.ofNat value)
    else .error (.value field (String.ofList digits))

def standardSides : UInt32 := 20

def standardAmount : UInt32 := 1

def standardDrop : UInt32 := 1

/-- A drop that is not spelled at all drops nothing. -/
def dropCount (field : Field) : Option (List Char) → Except Violation UInt32
  | none => .ok 0
  | some digits => number field standardDrop digits

/-- Sides are judged in full before the other numbers are looked at. -/
def dice (spelling : Spelling) : Except Violation Dice := do
  let sides ← number .sides standardSides spelling.sides
  if sides = 0 then throw (.value .sides "0")
  let amount ← number .amount standardAmount spelling.amount
  let dropLowest ← dropCount .dropLowest spelling.lowest
  let dropHighest ← dropCount .dropHighest spelling.highest
  Draft.build { sides, amount, dropLowest, dropHighest }

end Spelling

def ofText (text : String) : Except Error Dice :=
  let normal := normalize text
  match Spelling.read? normal.toList with
  | some (spelling, []) =>
    match spelling.dice with
    | .ok dice => .ok dice
    | .error violation => .error (.invalid violation)
  | _ => .error (.malformed normal)

end Dice

/-- A part of a pattern: a group, or text in which no group begins. -/
inductive Fragment where
  | text (characters : List Char)
  | group (spelling : Dice.Spelling)
deriving DecidableEq, Repr

namespace Fragment

def consText (c : Char) : List Fragment → List Fragment
  | .text characters :: rest => .text (c :: characters) :: rest
  | fragments => .text [c] :: fragments

/-- Groups are taken from the left, each as far as it goes. -/
def split (text : List Char) : List Fragment :=
  match _found : Dice.Spelling.read? text with
  | some (spelling, rest) => .group spelling :: split rest
  | none =>
    match text with
    | [] => []
    | c :: rest => consText c (split rest)
termination_by text.length
decreasing_by
  · exact Dice.Spelling.length_of_read? _found
  · exact Nat.lt_succ_self _

end Fragment

end DiceNotation

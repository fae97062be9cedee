/-! Groups of like dice with rules that drop some of their faces. A draft may hold any four
numbers; dice are a draft that has been checked, and carry the outcome of the check. -/

namespace DiceNotation

namespace Dice

inductive Field where
  | sides
  | amount
  | dropLowest
  | dropHighest
deriving DecidableEq, Repr

def Field.name : Field → String
  | sides => "sides"
  | amount => "amount"
  | dropLowest => "drop_lowest"
  | dropHighest => "drop_highest"

inductive Violation where
  | value (field : Field) (text : String)
  | drops (dropped amount : Nat)
deriving DecidableEq, Repr

def Violation.message : Violation → String
  | value field text => s!"Invalid value for {field.name} ('{text}')"
  | drops dropped amount =>
    s!"You can not drop more dice than amount ({dropped} dropped out of {amount})"

structure Draft where
  sides : UInt32
  amount : UInt32 := 1
  dropLowest : UInt32 := 0
  dropHighest : UInt32 := 0
deriving DecidableEq, Repr

/-- Counted without a limit, since two drops together may exceed a word. -/
def Draft.dropped (draft : Draft) : Nat :=
  draft.dropLowest.toNat + draft.dropHighest.toNat

def Draft.set (draft : Draft) (field : Field) (value : UInt32) : Draft :=
  match field with
  | .sides => { draft with sides := value }
  | .amount => { draft with amount := value }
  | .dropLowest => { draft with dropLowest := value }
  | .dropHighest => { draft with dropHighest := value }

def Draft.setAll (draft : Draft) (changes : List (Field × UInt32)) : Draft :=
  changes.foldl (fun draft (field, value) => draft.set field value) draft

end Dice

structure Dice extends Dice.Draft where
  sides_ne_zero : sides ≠ 0
  dropped_le_amount : toDraft.dropped ≤ amount.toNat
deriving DecidableEq, Repr

namespace Dice

def Draft.build (draft : Draft) : Except Violation Dice :=
  if sides : draft.sides = 0 then .error (.value .sides "0")
  else if drops : draft.dropped ≤ draft.amount.toNat then .ok ⟨draft, sides, drops⟩
  else .error (.drops draft.dropped draft.amount.toNat)

/-- All changes are made before the result is checked. A result that is refused leaves the dice
as they were. -/
def amend (dice : Dice) (changes : List (Field × UInt32)) : Except Violation Unit × Dice :=
  match (dice.setAll changes).build with
  | .ok amended => (.ok (), amended)
  | .error violation => (.error violation, dice)

/-- Groups that roll the same dice are alike whatever they drop. -/
instance : BEq Dice where
  beq first second := first.sides == second.sides && first.amount == second.amount

def dropText (mark : String) (count : UInt32) : String :=
  if count = 0 then "" else mark ++ toString count.toNat

def name (dice : Dice) : String :=
  s!"{dice.amount.toNat}d{dice.sides.toNat}" ++ dropText "l" dice.dropLowest
    ++ dropText "h" dice.dropHighest

/-- The drops fit in the amount, so neither difference wraps. -/
def kept (dice : Dice) : UInt32 :=
  dice.amount - dice.dropLowest - dice.dropHighest

def least (dice : Dice) : UInt64 :=
  dice.kept.toUInt64

def greatest (dice : Dice) : UInt64 :=
  dice.sides.toUInt64 * dice.kept.toUInt64

def average (dice : Dice) : Float :=
  (dice.least.toFloat + dice.greatest.toFloat) / 2

end Dice

end DiceNotation

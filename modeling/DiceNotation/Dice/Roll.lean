import DiceNotation.Error
import DiceNotation.Journal
import DiceNotation.Throw
import DiceNotation.Words

/-! Rolling a group: one face for each die, of which the least and then the greatest are
dropped. -/

namespace DiceNotation

/-- Draws words and reports events. -/
abbrev Rolling := StateT Words Logged

def Rolling.report (event : Event) : Rolling Unit :=
  fun words => do
    Logged.report event
    pure ((), words)

/-- Takes the extreme value out of a list again and again, each time at its first place. The
values taken come first, in the order in which they were taken. -/
def takeExtremes (extreme : List UInt32 → Option UInt32) :
    Nat → List UInt32 → List UInt32 × List UInt32
  | 0, values => ([], values)
  | count + 1, values =>
    match extreme values with
    | none => ([], values)
    | some value =>
      let (others, left) := takeExtremes extreme count (values.erase value)
      (value :: others, left)

/-- The values kept and the values dropped. -/
def dropExtremes (lowest highest : Nat) (values : List UInt32) : List UInt32 × List UInt32 :=
  let (low, values) := takeExtremes List.min? lowest values
  let (high, values) := takeExtremes List.max? highest values
  (values, low ++ high)

namespace Dice

def faces (dice : Dice) (words : Words) : List UInt32 × Words :=
  words.faces dice.sides dice.amount.toNat

def throwOf (dice : Dice) (faces : List UInt32) : Throw :=
  let (kept, dropped) := dropExtremes dice.dropLowest.toNat dice.dropHighest.toNat faces
  { kept, dropped, name := dice.name }

def roll (dice : Dice) : Rolling Throw :=
  fun words => do
    let (faces, words) := dice.faces words
    let throw := dice.throwOf faces
    Logged.report (.rolledGroup throw.name throw.total)
    pure (throw, words)

end Dice

end DiceNotation

import DiceNotation.Pattern
import DiceNotation.Text.Json

/-! Dice, throws, templates and outcomes as JSON records. -/

namespace DiceNotation

open Text (Json)

def Text.Json.count (n : Nat) : Json := .number n

def Text.Json.faces (faces : List UInt32) : Json :=
  .array (faces.map fun face => .count face.toNat)

def Dice.toJson (dice : Dice) : Json :=
  .object [("sides", .count dice.sides.toNat), ("amount", .count dice.amount.toNat),
    ("drop_lowest", .count dice.dropLowest.toNat), ("drop_highest", .count dice.dropHighest.toNat)]

def Throw.toJson (throw : Throw) : Json :=
  .object [("total", .number throw.total.toInt), ("detail", .faces throw.kept),
    ("dropped", .faces throw.dropped), ("name", .string throw.name)]

def Template.Piece.toJson : Template.Piece → Json
  | .text characters => .object [("Text", .string characters)]
  | .placeholder index => .object [("Placeholder", .count index)]

def Template.toJson (template : Template) : Json :=
  .object [("segments", .array (template.pieces.map (·.toJson)))]

def Outcome.toJson (outcome : Outcome) : Json :=
  .object [("total", .number outcome.total.toInt),
    ("scores", .array (outcome.throws.map Throw.toJson)), ("template", outcome.template.toJson)]

end DiceNotation

import DiceNotation.Text.Blank
import DiceNotation.Text.Lowercase

/-! The normal form in which patterns are read: no blanks, lower case, and the percentile die
d% spelled as d100. Case and percent signs are settled after blanks, so a blank inside a
group changes nothing. -/

namespace DiceNotation

def squeeze (text : List Char) : List Char :=
  (text.filter fun c => !Text.isBlank c).flatMap Text.lowercase

def expandPercent : List Char → List Char
  | [] => []
  | 'd' :: '%' :: rest => 'd' :: '1' :: '0' :: '0' :: expandPercent rest
  | c :: rest => c :: expandPercent rest

def normalize (text : String) : String :=
  String.ofList (expandPercent (squeeze text.toList))

end DiceNotation

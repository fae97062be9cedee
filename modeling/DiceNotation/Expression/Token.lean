import DiceNotation.Expression.Operation
import DiceNotation.Text.Blank

/-! The smallest parts of expressions. Blanks only separate tokens, and each token goes as far
as it can. -/

namespace DiceNotation

open Expression (Fault)

inductive Token where
  | number (value : Number)
  | function (function : Builtin)
  | plus
  | minus
  | multiply
  | divide
  | floorDivide
  | leftParenthesis
  | rightParenthesis
  | comma
  | eof

namespace Token

def builtinText : Builtin → String
  | .abs => "Abs"
  | .max => "Max"
  | .min => "Min"

/-- How faults name a token. -/
def description : Token → String
  | number (.int value) => s!"Number(Int({(Number.int value).text}))"
  | number (.float value) => s!"Number(Float({(Number.float value).text}))"
  | function builtin => s!"Function({builtinText builtin})"
  | plus => "Plus"
  | minus => "Minus"
  | multiply => "Multiply"
  | divide => "Divide"
  | floorDivide => "FloorDivide"
  | leftParenthesis => "LeftParenthesis"
  | rightParenthesis => "RightParenthesis"
  | comma => "Comma"
  | eof => "Eof"

def operator? : Token → Option Operator
  | plus => some .add
  | minus => some .subtract
  | multiply => some .multiply
  | divide => some .divide
  | floorDivide => some .floorDivide
  | _ => none

def isNameStart (c : Char) : Bool := c == '_' || c.isAlpha

def isNamePart (c : Char) : Bool := c == '_' || c.isAlphanum

def ofDigits (digits : List Char) : Except Fault Token :=
  match Number.fit? (Nat.ofDigitChars 10 digits 0) with
  | some value => .ok (number (.int value))
  | none => .error (.invalidNumber (String.ofList digits))

/-- Digits may be missing before or after the point, but not on both sides. -/
def ofDecimal (whole places : List Char) : Except Fault Token :=
  if whole = [] ∧ places = [] then .error (.invalidNumber ".")
  else
    .ok (number (.float
      (Float.ofScientific (Nat.ofDigitChars 10 (whole ++ places) 0) true places.length)))

def ofName (name : String) : Except Fault Token :=
  match Builtin.ofName? name with
  | some builtin => .ok (function builtin)
  | none => .error (.unknownName name)

/-- Reads digits with at most one point among them. -/
def readNumber (text : List Char) : Except Fault Token × List Char :=
  let whole := text.takeWhile Char.isDigit
  match text.dropWhile Char.isDigit with
  | '.' :: afterPoint =>
    (ofDecimal whole (afterPoint.takeWhile Char.isDigit), afterPoint.dropWhile Char.isDigit)
  | rest => (ofDigits whole, rest)

def readName (text : List Char) : Except Fault Token × List Char :=
  (ofName (String.ofList (text.takeWhile isNamePart)), text.dropWhile isNamePart)

/-- The token at the very start of a text, and what follows it. A character that begins no token is
left where it is, while a number or a name that is refused has been read. -/
def readSolid : List Char → Except Fault Token × List Char
  | [] => (.ok eof, [])
  | '+' :: rest => (.ok plus, rest)
  | '-' :: rest => (.ok minus, rest)
  | '*' :: rest => (.ok multiply, rest)
  | '/' :: '/' :: rest => (.ok floorDivide, rest)
  | '/' :: rest => (.ok divide, rest)
  | '(' :: rest => (.ok leftParenthesis, rest)
  | ')' :: rest => (.ok rightParenthesis, rest)
  | ',' :: rest => (.ok comma, rest)
  | c :: rest =>
    if c.isDigit || c == '.' then readNumber (c :: rest)
    else if isNameStart c then readName (c :: rest)
    else (.error (.invalidCharacter c), c :: rest)

/-- The next token of a text, and what follows it. -/
def read (text : List Char) : Except Fault Token × List Char :=
  readSolid (text.dropWhile Text.isBlank)

end Token

end DiceNotation

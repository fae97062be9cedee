/-! JSON documents written without blanks. Members keep the order in which they are given. -/

namespace DiceNotation.Text

inductive Json where
  | number (value : Int)
  | string (characters : String)
  | array (elements : List Json)
  | object (members : List (String × Json))

namespace Json

def hexDigit (n : Nat) : Char := Nat.digitChar (n % 16)

/-- Only what JSON demands is escaped: the two delimiters and the control characters, these by
their short names where they have one. -/
def escape (c : Char) : List Char :=
  match c with
  | '"' => ['\\', '"']
  | '\\' => ['\\', '\\']
  | '\n' => ['\\', 'n']
  | '\r' => ['\\', 'r']
  | '\t' => ['\\', 't']
  | '\x08' => ['\\', 'b']
  | '\x0c' => ['\\', 'f']
  | c =>
    if c.toNat < 0x20 then ['\\', 'u', '0', '0', hexDigit (c.toNat / 16), hexDigit c.toNat] else [c]

def quote (text : String) : String :=
  String.ofList ('"' :: text.toList.flatMap escape ++ ['"'])

mutual
def compact : Json → String
  | number value => toString value
  | string characters => quote characters
  | array elements => "[" ++ compactElements elements ++ "]"
  | object members => "\x7b" ++ compactMembers members ++ "\x7d"
termination_by structural document => document

def compactElements : List Json → String
  | [] => ""
  | [element] => element.compact
  | element :: rest => element.compact ++ "," ++ compactElements rest
termination_by structural elements => elements

def compactMember : String × Json → String
  | (key, value) => quote key ++ ":" ++ value.compact
termination_by structural pair => pair

def compactMembers : List (String × Json) → String
  | [] => ""
  | [pair] => compactMember pair
  | pair :: rest => compactMember pair ++ "," ++ compactMembers rest
termination_by structural members => members
end

end Json

end DiceNotation.Text

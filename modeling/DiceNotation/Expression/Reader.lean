import DiceNotation.Expression
import DiceNotation.Expression.Token

/-! Reading expressions. A reader looks at two tokens, and takes no more of its source than it
needs to decide, so a fault is placed where reading had got to. The source is a text, or a list of
tokens that have been read from one already. A reader can be used again after it has answered, and
goes on from the tokens that it looks at then. -/

namespace DiceNotation

open Expression (Fault Failure)

/-- Both the nesting of operands and the height of trees end here. -/
def maxDepth : Nat := 256

/-- What tokens are taken from, one after the other. -/
class Token.Source (σ : Type) where
  next : σ → Except Fault Token × σ
  /-- No more tokens can follow than this. -/
  size : σ → Nat

instance : Token.Source (List Char) := ⟨Token.read, List.length⟩

def Token.pop : List Token → Except Fault Token × List Token
  | [] | .eof :: _ => (.ok .eof, [])
  | token :: rest => (.ok token, rest)

instance : Token.Source (List Token) := ⟨Token.pop, List.length⟩

/-- Two tokens, and the source of those that come after. -/
structure Lookahead (σ : Type) where
  length : Nat
  unread : σ
  current : Token
  following : Token

abbrev Reader := Lookahead (List Char)

/-- How tightly an operand is held by what stands before it. -/
inductive Precedence where
  | lowest
  | sum
  | product
  | sign
deriving DecidableEq, Repr

def Precedence.rank : Precedence → Nat
  | lowest => 1
  | sum => 2
  | product => 3
  | sign => 4

def Operator.precedence : Operator → Precedence
  | add | subtract => .sum
  | multiply | divide | floorDivide => .product

/-- A faulty reading keeps what it had read. -/
abbrev Reading (σ : Type) := ExceptT Fault (StateM (Lookahead σ))

/-- A tree with its height. -/
structure Grown where
  tree : Expression
  height : Nat

namespace Lookahead

variable {σ : Type} [Token.Source σ]

def position (reader : Lookahead σ) : Nat :=
  reader.length - Token.Source.size reader.unread

def advance : Reading σ Unit := ExceptT.mk fun reader =>
  match Token.Source.next reader.unread with
  | (.ok token, unread) =>
    (.ok (), { reader with unread, current := reader.following, following := token })
  | (.error fault, unread) => (.error fault, { reader with unread, current := reader.following })

def above (height : Nat) : Except Fault Nat :=
  if maxDepth ≤ height then .error (.tooDeep maxDepth) else .ok (height + 1)

def expectClosing : Reading σ Unit := do
  match (← get).following with
  | .rightParenthesis => advance
  | _ => throw .unclosedParenthesis

/-- More rounds than tokens can follow. -/
def roundLimit : Reading σ Nat :=
  return Token.Source.size (← get).unread + 1

def addArgument (arguments : List Expression) (height : Nat) (argument : Grown) :
    List Expression × Nat :=
  (arguments ++ [argument.tree], max height argument.height)

def argumentRounds (operand : Precedence → Reading σ Grown) :
    Nat → List Expression × Nat → Reading σ (List Expression × Nat)
  | 0, _ => throw .unclosedParenthesis
  | rounds + 1, (arguments, height) => do
    advance
    let argument ← operand .lowest
    let read := addArgument arguments height argument
    match (← get).following with
    | .comma =>
      advance
      argumentRounds operand rounds read
    | _ =>
      expectClosing
      return read

/-- The arguments of a call and the height of the tallest, read from the parenthesis that opens
them. -/
def arguments (operand : Precedence → Reading σ Grown) : Reading σ (List Expression × Nat) := do
  match (← get).following with
  | .rightParenthesis =>
    advance
    return ([], 0)
  | _ => argumentRounds operand (← roundLimit) ([], 0)

def signed (operand : Precedence → Reading σ Grown) (sign : Sign) : Reading σ Grown := do
  advance
  let operand ← operand .sign
  return ⟨.signed sign operand.tree, ← above operand.height⟩

def call (operand : Precedence → Reading σ Grown) (function : Builtin) : Reading σ Grown := do
  match (← get).following with
  | .leftParenthesis =>
    advance
    let (arguments, height) ← arguments operand
    return ⟨.call function arguments, ← above height⟩
  | _ => throw (.unexpectedStart (Token.builtinText function))

/-- An operand that begins with the current token and is not yet joined to a following one. -/
def primary (operand : Precedence → Reading σ Grown) : Reading σ Grown := do
  match (← get).current with
  | .number value => return ⟨.literal value, 1⟩
  | .minus => signed operand .minus
  | .plus => signed operand .plus
  | .leftParenthesis =>
    advance
    let inner ← operand .lowest
    expectClosing
    return inner
  | .function function => call operand function
  | token => throw (.unexpectedStart token.description)

/-- Joins operands to the left one for as long as the operators hold them more tightly. -/
def chain (operand : Precedence → Reading σ Grown) (precedence : Precedence) :
    Nat → Grown → Reading σ Grown
  | 0, left => return left
  | rounds + 1, left => do
    match (← get).following.operator? with
    | some operator =>
      if precedence.rank < operator.precedence.rank then
        advance
        advance
        let right ← operand operator.precedence
        let height ← above (max left.height right.height)
        chain operand precedence rounds ⟨.binary operator left.tree right.tree, height⟩
      else return left
    | none => return left

/-- Every level of nesting takes one off `room`. -/
def operand : (room : Nat) → Precedence → Reading σ Grown
  | 0, _ => throw (.tooDeep maxDepth)
  | room + 1, precedence => do
    let first ← primary (operand room)
    chain (operand room) precedence (← roundLimit) first

def whole : Reading σ Expression := do
  let grown ← operand maxDepth .lowest
  match (← get).following with
  | .eof => return grown.tree
  | token => throw (.trailing token.description)

/-- A source without tokens is refused, and so is one whose first or second token is. -/
def ofSource (source : σ) : Except Fault (Lookahead σ) :=
  match Token.Source.next source with
  | (.error fault, _) => .error fault
  | (.ok .eof, _) => .error .empty
  | (.ok current, unread) =>
    match Token.Source.next unread with
    | (.error fault, _) => .error fault
    | (.ok following, unread) =>
      .ok { length := Token.Source.size source, unread, current, following }

def expression (reader : Lookahead σ) : Except Failure Expression × Lookahead σ :=
  match whole.run reader with
  | (.ok tree, reader) => (.ok tree, reader)
  | (.error fault, reader) => (.error ⟨fault, some reader.position⟩, reader)

end Lookahead

def Reader.ofText (text : String) : Except Fault Reader :=
  Lookahead.ofSource text.toList

namespace Expression

def ofSource {σ : Type} [Token.Source σ] (source : σ) : Except Failure Expression :=
  match Lookahead.ofSource source with
  | .error fault => .error ⟨fault, none⟩
  | .ok reader => reader.expression.1

def ofText (text : String) : Except Failure Expression :=
  ofSource text.toList

end Expression

/-- Reads an expression and evaluates it. Faults of evaluation have no place. -/
def evaluate (text : String) : Except Failure Number := do
  let tree ← Expression.ofText text
  match tree.evaluate with
  | .ok value => .ok value
  | .error fault => .error ⟨fault, none⟩

end DiceNotation

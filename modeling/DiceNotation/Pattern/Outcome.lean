import DiceNotation.Expression.Reader
import DiceNotation.Template
import DiceNotation.Throw

/-! The outcome of a whole pattern: one throw for each group, and the total of the expression in
which every placeholder stands for the total of its throw. -/

namespace DiceNotation

structure Outcome where
  total : Int64
  throws : List Throw
  template : Template
deriving DecidableEq, Repr

namespace Outcome

open Expression (Failure)

instance : Coe Outcome Int64 := ⟨total⟩

def boundTotal (throws : List Throw) (index : Nat) : Except Failure String :=
  match throws[index]? with
  | some throw => .ok (toString throw.total.toInt)
  | none => .error ⟨.unboundPlaceholder index, none⟩

def totalOf (template : Template) (throws : List Throw) : Except Failure Int64 := do
  let text ← template.render (boundTotal throws)
  let value ← evaluate text
  match value.toInteger with
  | .ok total => .ok total
  | .error fault => .error ⟨fault, none⟩

def ofThrows (template : Template) (throws : List Throw) : Except Error Outcome :=
  match totalOf template throws with
  | .ok total => .ok { total, throws, template }
  | .error failure => .error (.arithmetic failure)

def throwAt (outcome : Outcome) (index : Nat) : Except Error Throw :=
  match outcome.throws[index]? with
  | some throw => .ok throw
  | none => .error (.missingThrow index outcome.throws.length)

def format (outcome : Outcome) (verbose : Bool) : String :=
  outcome.template.fill fun index =>
    match outcome.throws[index]? with
    | some throw => throw.format verbose
    | none => ""

end Outcome

end DiceNotation

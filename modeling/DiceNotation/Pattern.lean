import DiceNotation.Dice.Roll
import DiceNotation.Dice.Spelling
import DiceNotation.Pattern.Outcome

/-! Patterns: texts in which groups of dice stand for numbers. Compiling takes the groups out
and leaves a template; rolling compiles first where that has not been done. Whatever fails, a
pattern keeps its source, and once compiled it stays so. -/

namespace DiceNotation

/-- The groups of a pattern from left to right, and the template in which placeholder `i` stands
for group `i`. -/
structure Extraction where
  dice : List Dice := []
  template : Template := {}

namespace Extraction

instance : BEq Extraction where
  beq first second := first.dice == second.dice && first.template == second.template

def add (extraction : Extraction) : Fragment → Except Dice.Violation Extraction
  | .text characters =>
    .ok { extraction with template := extraction.template.pushText (String.ofList characters) }
  | .group spelling => do
    let dice ← spelling.dice
    let template := extraction.template.pushPlaceholder extraction.dice.length
    return { dice := extraction.dice ++ [dice], template }

def ofFragments (fragments : List Fragment) : Except Dice.Violation Extraction :=
  fragments.foldlM add {}

end Extraction

structure Pattern where
  source : String
  extraction : Option Extraction := none

namespace Pattern

instance : BEq Pattern where
  beq first second := first.source == second.source && first.extraction == second.extraction

def ofText (text : String) : Except Error Pattern :=
  let source := normalize text
  if source.isEmpty then .error (.malformed text) else .ok { source }

def isCompiled (pattern : Pattern) : Bool :=
  pattern.extraction.isSome

def extracted (pattern : Pattern) : Extraction :=
  pattern.extraction.getD {}

def dice (pattern : Pattern) : List Dice :=
  pattern.extracted.dice

def template (pattern : Pattern) : Template :=
  pattern.extracted.template

def extract (pattern : Pattern) : Except Dice.Violation Extraction :=
  Extraction.ofFragments (Fragment.split pattern.source.toList)

/-- The groups are always taken from the source, also where that has been done before. -/
def compile (pattern : Pattern) : Logged (Except Error Unit × Pattern) :=
  match pattern.extract with
  | .error violation => return (.error (.invalid violation), pattern)
  | .ok extraction => do
    Logged.report
      (.compiledPattern pattern.source extraction.template.text extraction.dice.length)
    return (.ok (), { pattern with extraction := some extraction })

def ensureCompiled (pattern : Pattern) : Logged (Except Error Unit × Pattern) :=
  if pattern.isCompiled then return (.ok (), pattern) else pattern.compile

/-- Rolls every group before any arithmetic is done. -/
def rollCompiled (pattern : Pattern) : Rolling (Except Error Outcome) := do
  let throws ← pattern.dice.mapM Dice.roll
  match Outcome.ofThrows pattern.template throws with
  | .error error => return .error error
  | .ok outcome =>
    Rolling.report (.rolledPattern pattern.source outcome.total)
    return .ok outcome

def roll (pattern : Pattern) : Rolling (Except Error Outcome × Pattern) := do
  match ← pattern.ensureCompiled with
  | (.error error, pattern) => return (.error error, pattern)
  | (.ok (), pattern) => return (← pattern.rollCompiled, pattern)

end Pattern

def rollText (text : String) : Rolling (Except Error Outcome) := do
  match Pattern.ofText text with
  | .error error => return .error error
  | .ok pattern => return (← pattern.roll).1

def rollDice (sides amount : UInt32) : Rolling (Except Error Throw) := do
  match Dice.Draft.build { sides, amount } with
  | .error violation => return .error (.invalid violation)
  | .ok dice => return .ok (← dice.roll)

end DiceNotation

import DiceNotation.Pattern

/-! Groups by their offsets in the bytes of a text. Every byte can be looked at, also those inside
of a character, and what is found is cut out of the text at its offsets. A cut has to fall
between characters. -/

namespace DiceNotation

namespace Offsets

/-- An offset between two characters, or at one of the ends of a text. -/
abbrev Boundary (source : String) (offset : Nat) : Prop :=
  (String.Pos.Raw.mk offset).IsValid source

structure Misplaced where
  start : Nat
  stop : Nat
deriving DecidableEq, Repr

/-- A computation that cuts, and stops at the first cut that is misplaced. -/
abbrev Cutting := Except Misplaced

def cut (source : String) (start stop : Nat) : Cutting String :=
  if placed : start ≤ stop ∧ Boundary source start ∧ Boundary source stop then
    .ok (source.extract (source.pos ⟨start⟩ placed.2.1) (source.pos ⟨stop⟩ placed.2.2))
  else .error { start, stop }

/-- A group with the offsets where it begins and ends. -/
structure Located where
  start : Nat
  stop : Nat
  spelling : Dice.Spelling
deriving DecidableEq, Repr

def isDigit (byte : UInt8) : Bool :=
  '0'.toUInt8 ≤ byte && byte ≤ '9'.toUInt8

/-- The first offset from here on at which no digit stands. -/
def skipDigits (bytes : ByteArray) (offset : Nat) : Nat :=
  if inside : offset < bytes.size then
    if isDigit bytes[offset] then skipDigits bytes (offset + 1) else offset
  else offset
termination_by bytes.size - offset

/-- What is dropped, where the letter for it stands at the offset, and the offset behind that. -/
def dropAt (source : String) (letter : Char) (offset : Nat) :
    Cutting (Option (List Char) × Nat) :=
  if source.toByteArray[offset]? = some letter.toUInt8 then do
    let stop := skipDigits source.toByteArray (offset + 1)
    let digits ← cut source (offset + 1) stop
    return (some digits.toList, stop)
  else return (none, offset)

/-- The group that begins at exactly this offset. -/
def groupAt (source : String) (start : Nat) : Cutting (Option Located) :=
  let bytes := source.toByteArray
  let letter := skipDigits bytes start
  if bytes[letter]? = some 'd'.toUInt8 then do
    let sidesStop := skipDigits bytes (letter + 1)
    let (lowest, lowestStop) ← dropAt source 'l' sidesStop
    let (highest, stop) ← dropAt source 'h' lowestStop
    let amount ← cut source start letter
    let sides ← cut source (letter + 1) sidesStop
    let spelling := { amount := amount.toList, sides := sides.toList, lowest, highest }
    return some { start, stop, spelling }
  else return none

theorem le_skipDigits (bytes : ByteArray) (offset : Nat) : offset ≤ skipDigits bytes offset := by
  fun_induction skipDigits bytes offset <;> omega

theorem le_of_dropAt {source : String} {letter : Char} {offset stop : Nat}
    {drop : Option (List Char)} (read : dropAt source letter offset = .ok (drop, stop)) :
    offset ≤ stop := by
  rw [dropAt] at read
  split at read
  · have behind := le_skipDigits source.toByteArray (offset + 1)
    simp only [bind, Except.bind] at read
    split at read
    · contradiction
    · cases read
      omega
  · cases read
    exact Nat.le_refl _

/-- A group takes up at least the byte of its letter. -/
theorem lt_of_groupAt {source : String} {start : Nat} {located : Located}
    (found : groupAt source start = .ok (some located)) : start < located.stop := by
  have letter := le_skipDigits source.toByteArray start
  have sides := le_skipDigits source.toByteArray (skipDigits source.toByteArray start + 1)
  rw [groupAt] at found
  split at found
  · simp only [bind, Except.bind] at found
    split at found
    next => contradiction
    next lowest =>
      split at found
      next => contradiction
      next highest =>
        have lowest := le_of_dropAt lowest
        have highest := le_of_dropAt highest
        split at found
        next => contradiction
        next =>
          split at found
          next => contradiction
          next =>
            cases found
            simp only
            omega
  · cases found

/-- Groups are taken from the left, and behind each the search goes on where it ends. -/
def locateFrom (source : String) (offset : Nat) : Cutting (List Located) :=
  if offset < source.utf8ByteSize then
    match _found : groupAt source offset with
    | .error misplaced => .error misplaced
    | .ok (some located) => return located :: (← locateFrom source located.stop)
    | .ok none => locateFrom source (offset + 1)
  else return []
termination_by source.utf8ByteSize - offset
decreasing_by
  · have := lt_of_groupAt _found
    omega
  · omega

def locate (source : String) : Cutting (List Located) :=
  locateFrom source 0

/-- The text before a group goes into the template ahead of it, and what is left at the end goes
last. -/
def extractFrom (source : String) (offset : Nat) (extraction : Extraction) :
    List Located → Cutting (Except Dice.Violation Extraction)
  | [] => do
    let text ← cut source offset source.utf8ByteSize
    return .ok { extraction with template := extraction.template.pushText text }
  | found :: rest => do
    let text ← cut source offset found.start
    let template := (extraction.template.pushText text).pushPlaceholder extraction.dice.length
    match found.spelling.dice with
    | .error violation => return .error violation
    | .ok dice => extractFrom source found.stop { dice := extraction.dice ++ [dice], template } rest

def extract (source : String) : Cutting (Except Dice.Violation Extraction) := do
  extractFrom source 0 {} (← locate source)

end Offsets

end DiceNotation

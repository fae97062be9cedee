/-! Random words and the faces made of them. A source of words is a fixed sequence with a count
of those already drawn, so what is left of it after any number of rolls can be compared. -/

namespace DiceNotation

structure Words where
  word : Nat → UInt32
  drawn : Nat := 0

namespace Words

def next (words : Words) : UInt32 × Words :=
  (words.word words.drawn, { words with drawn := words.drawn + 1 })

/-- A word times the number of sides, cut at 32 bits, gives the face less one in its upper half.
Where the lower half leaves it open whether a longer fraction would carry, a second word
settles the carry. -/
def face (sides : UInt32) (words : Words) : UInt32 × Words :=
  let (first, words) := words.next
  let product := first.toNat * sides.toNat
  let high := product / UInt32.size
  let low := product % UInt32.size
  if low ≤ (UInt32.size - sides.toNat) % UInt32.size then
    (UInt32.ofNat (high + 1), words)
  else
    let (second, words) := words.next
    let carry := (low + second.toNat * sides.toNat / UInt32.size) / UInt32.size
    (UInt32.ofNat (high + carry + 1), words)

def faces (sides : UInt32) : Nat → Words → List UInt32 × Words
  | 0, words => ([], words)
  | count + 1, words =>
    let (first, words) := words.face sides
    let (others, words) := faces sides count words
    (first :: others, words)

/-- The map `x ↦ scale * x + shift` on words. -/
structure Affine where
  scale : UInt32
  shift : UInt32

def Affine.apply (map : Affine) (x : UInt32) : UInt32 :=
  map.scale * x + map.shift

def Affine.after (second first : Affine) : Affine where
  scale := second.scale * first.scale
  shift := second.apply first.shift

/-- A map repeated `count` times, by squaring. -/
def Affine.repeated (map : Affine) (count : Nat) : Affine :=
  if count = 0 then ⟨1, 0⟩
  else
    let half := map.repeated (count / 2)
    let square := half.after half
    if count % 2 = 0 then square else map.after square

def congruential : Affine := ⟨1664525, 1013904223⟩

/-- The given words in order, and from there on a linear congruential sequence that starts
after `seed`. -/
def scripted (given : Array UInt32) (seed : UInt32) : Words where
  word n :=
    match given[n]? with
    | some word => word
    | none => (congruential.repeated (n - given.size + 1)).apply seed

end Words

end DiceNotation

/-! What one group of dice showed: the faces kept, the faces dropped, and the group's name. A
throw counts as its total. -/

namespace DiceNotation

structure Throw where
  kept : List UInt32
  dropped : List UInt32
  name : String
deriving DecidableEq, Repr

namespace Throw

def sum (throw : Throw) : Nat :=
  throw.kept.foldr (fun face rest => face.toNat + rest) 0

def total (throw : Throw) : Int64 :=
  Int64.ofNat throw.sum

instance : Coe Throw Int64 := ⟨total⟩

def shows (throw : Throw) (face : UInt32) : Bool :=
  throw.kept.contains face

def listFaces (faces : List UInt32) : String :=
  "[" ++ ",".intercalate (faces.map fun face => toString face.toNat) ++ "]"

def brief (throw : Throw) : String :=
  listFaces throw.kept

/-- The blank at either end sets the throw off where it stands inside a longer expression. -/
def full (throw : Throw) : String :=
  let dropped := if throw.dropped.isEmpty then "" else ", dropped:" ++ listFaces throw.dropped
  s!" {throw.name} (scores:{listFaces throw.kept}{dropped}) "

def format (throw : Throw) (verbose : Bool) : String :=
  if verbose then throw.full else throw.brief

end Throw

end DiceNotation

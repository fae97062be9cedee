import DiceNotation.Dice.Roll
import Mathlib.Algebra.Group.Nat.Defs

/-! The faces that words make. A face takes one word or two, and the carry of a second word never reaches past
the last side: where the upper half of the product is already the last face, the lower half leaves nothing open. -/

namespace DiceNotation.Proofs.Faces

variable {sides : UInt32} {words : Words}

structure Shown (sides : UInt32) (words : Words) (drawn : UInt32 × Words) : Prop where
  positive : 1 ≤ drawn.1.toNat
  low : drawn.1.toNat ≤ sides.toNat
  source : drawn.2.word = words.word
  some : words.drawn + 1 ≤ drawn.2.drawn
  few : drawn.2.drawn ≤ words.drawn + 2

/-- As many faces, from once to twice as many words. -/
structure AllShown (sides : UInt32) (count : Nat) (words : Words) (drawn : List UInt32 × Words) : Prop where
  length : drawn.1.length = count
  each : ∀ face ∈ drawn.1, 1 ≤ face.toNat ∧ face.toNat ≤ sides.toNat
  source : drawn.2.word = words.word
  some : words.drawn + count ≤ drawn.2.drawn
  few : drawn.2.drawn ≤ words.drawn + 2 * count

private theorem high_lt (word sides : Nat) (small : word < 2 ^ 32) (positive : 0 < sides) :
    word * sides / 2 ^ 32 < sides :=
  Nat.div_lt_of_lt_mul (Nat.mul_lt_mul_of_pos_right small positive)

private theorem high_open {word sides : Nat} (small : word < 2 ^ 32) (positive : 0 < sides)
    (isOpen : 2 ^ 32 - sides < word * sides % 2 ^ 32) : word * sides / 2 ^ 32 + 1 < sides := by
  have below := high_lt word sides small positive
  have halves := Nat.div_add_mod (word * sides) (2 ^ 32)
  refine Nat.lt_of_not_le fun last => ?_
  have high : word * sides / 2 ^ 32 = sides - 1 := by omega
  have most : word * sides ≤ (2 ^ 32 - 1) * sides := Nat.mul_le_mul_right sides (by omega)
  rw [high] at halves
  rw [Nat.sub_mul] at most
  omega

private theorem carry_le (low : Nat) {second sides : Nat} (small : low < 2 ^ 32) (word : second < 2 ^ 32)
    (word' : sides < 2 ^ 32) : (low + second * sides / 2 ^ 32) / 2 ^ 32 ≤ 1 := by
  rcases Nat.eq_zero_or_pos sides with rfl | positive
  · omega
  · have below := high_lt second sides word positive
    omega

def product (sides : UInt32) (words : Words) : Nat := (words.word words.drawn).toNat * sides.toNat

private theorem range_eq (positive : 0 < sides.toNat) :
    (UInt32.size - sides.toNat) % UInt32.size = 2 ^ 32 - sides.toNat :=
  Nat.mod_eq_of_lt (Nat.sub_lt (by decide) positive)

private theorem face_settled (positive : 0 < sides.toNat)
    (settled : product sides words % 2 ^ 32 ≤ 2 ^ 32 - sides.toNat) :
    words.face sides = (UInt32.ofNat (product sides words / 2 ^ 32 + 1), { words with drawn := words.drawn + 1 }) :=
  if_pos (by rw [range_eq positive]; exact settled)

private theorem face_open (positive : 0 < sides.toNat) (isOpen : 2 ^ 32 - sides.toNat < product sides words % 2 ^ 32) :
    words.face sides =
      (UInt32.ofNat (product sides words / 2 ^ 32 +
          (product sides words % 2 ^ 32 + (words.word (words.drawn + 1)).toNat * sides.toNat / 2 ^ 32) / 2 ^ 32 + 1),
        { words with drawn := words.drawn + 2 }) :=
  if_neg (by rw [range_eq positive]; exact Nat.not_le.mpr isOpen)

theorem shown_face (positive : 0 < sides.toNat) : Shown sides words (words.face sides) := by
  have small := sides.toNat_lt
  have first := (words.word words.drawn).toNat_lt
  have second := (words.word (words.drawn + 1)).toNat_lt
  rcases Nat.lt_or_ge (2 ^ 32 - sides.toNat) (product sides words % 2 ^ 32) with isOpen | settled
  · have room : product sides words / 2 ^ 32 + 1 < sides.toNat := high_open first positive isOpen
    have carry := carry_le (product sides words % 2 ^ 32) (Nat.mod_lt _ (by decide)) second small
    rw [face_open positive isOpen]
    refine ⟨?_, ?_, rfl, Nat.le_succ _, Nat.le_refl _⟩
    all_goals simp only [UInt32.toNat_ofNat']
    all_goals omega
  · have below : product sides words / 2 ^ 32 < sides.toNat := high_lt _ _ first positive
    rw [face_settled positive settled]
    refine ⟨?_, ?_, rfl, Nat.le_refl _, Nat.le_succ _⟩
    all_goals simp only [UInt32.toNat_ofNat']
    all_goals omega

theorem allShown_faces (positive : 0 < sides.toNat) (count : Nat) :
    AllShown sides count words (words.faces sides count) := by
  induction count generalizing words with
  | zero => exact ⟨rfl, by simp [Words.faces], rfl, Nat.le_refl _, Nat.le_refl _⟩
  | succ count ih =>
    have first : Shown sides words _ := shown_face positive
    have others : AllShown sides count (words.face sides).2 _ := ih
    have fewFirst := first.few
    have someFirst := first.some
    have fewOthers := others.few
    have someOthers := others.some
    exact ⟨congrArg Nat.succ others.length, List.forall_mem_cons.mpr ⟨⟨first.positive, first.low⟩, others.each⟩,
      others.source.trans first.source, by dsimp only [Words.faces]; omega, by dsimp only [Words.faces]; omega⟩

def constant (word : UInt32) : Words where
  word _ := word

private theorem faces_constant {word face : UInt32} (same : ∀ words : Words, words.word = (constant word).word →
    (words.face sides).1 = face) (positive : 0 < sides.toNat) (count : Nat) (source : words.word = (constant word).word) :
    (words.faces sides count).1 = List.replicate count face := by
  induction count generalizing words with
  | zero => rfl
  | succ count ih =>
    have others := ih ((shown_face positive).source.trans source)
    change (words.face sides).1 :: ((words.face sides).2.faces sides count).1 = _
    rw [others, same words source, List.replicate_succ]

/-- A source of zeros shows nothing but ones. -/
theorem faces_zero (positive : 0 < sides.toNat) (count : Nat) :
    ((constant 0).faces sides count).1 = List.replicate count 1 := by
  refine faces_constant (fun words source => ?_) positive count rfl
  have none : product sides words = 0 := by simp [product, source, constant]
  rw [face_settled positive (by simp [none]), none]
  rfl

/-- A source of the greatest words shows nothing but the last side. -/
theorem faces_top (positive : 0 < sides.toNat) (count : Nat) :
    ((constant (-1)).faces sides count).1 = List.replicate count sides := by
  refine faces_constant (fun words source => ?_) positive count rfl
  have small := sides.toNat_lt
  have most : product sides words = (2 ^ 32 - sides.toNat) + 2 ^ 32 * (sides.toNat - 1) := by
    have top : (-1 : UInt32).toNat = 2 ^ 32 - 1 := by decide
    simp only [product, source, constant, top]
    omega
  have low : product sides words % 2 ^ 32 = 2 ^ 32 - sides.toNat := by
    rw [most, Nat.add_mul_mod_self_left, Nat.mod_eq_of_lt (by omega)]
  have high : product sides words / 2 ^ 32 + 1 = sides.toNat := by omega
  rw [face_settled positive (Nat.le_of_eq low), high, UInt32.ofNat_toNat]

end DiceNotation.Proofs.Faces

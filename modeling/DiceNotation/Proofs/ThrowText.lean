import DiceNotation.Proofs.DiceText
import DiceNotation.Proofs.RollRange
import Mathlib.Data.List.TakeWhile

/-! The texts of a throw. The faces can be read back from the list in which they stand, and the list shows where it ends, so
that no two throws of one name have the same text in full. -/

namespace DiceNotation.Proofs.ThrowText
open DiceText (numeral numeral_digits)

variable {faces others : List UInt32} {text rest : List Char}

section Reading

def readFace (figures : List Char) : Option UInt32 :=
  if figures ≠ [] ∧ figures.all Char.isDigit ∧ Nat.ofDigitChars 10 figures 0 < UInt32.size then
    some (UInt32.ofNat (Nat.ofDigitChars 10 figures 0))
  else none

/-- Faces between commas. Where nothing is written, there are no faces. -/
def readFaces (text : List Char) : Option (List UInt32) :=
  if text = [] then some [] else (text.splitOn ',').mapM readFace

/-- The list with which a text starts, up to the first bracket that closes one, and the text that follows it. -/
def readList : List Char → Option (List UInt32 × List Char)
  | '[' :: text =>
    match text.dropWhile (· ≠ ']') with
    | _ :: rest => (readFaces (text.takeWhile (· ≠ ']'))).map (·, rest)
    | [] => none
  | _ => none

def readBrief (text : String) : Option (List UInt32) :=
  match readList text.toList with
  | some (faces, []) => some faces
  | _ => none

end Reading

section Lists

def inside (faces : List UInt32) : List Char := [','].intercalate (faces.map numeral)

theorem toList_listFaces (faces : List UInt32) : (Throw.listFaces faces).toList = '[' :: (inside faces ++ [']']) := by
  have texts : (faces.map fun face => toString face.toNat).map String.toList = faces.map numeral := by
    simp only [List.map_map]
    exact List.map_congr_left fun face _ => Nat.toList_repr
  simp only [Throw.listFaces, String.toList_append, String.toList_intercalate, texts]
  rfl

theorem readFace_numeral (face : UInt32) : readFace (numeral face) = some face := by
  have digits : (numeral face).all Char.isDigit = true := List.all_eq_true.mpr (numeral_digits face)
  have value : Nat.ofDigitChars 10 (numeral face) 0 = face.toNat := Nat.ofDigitChars_ten_toDigits
  rw [readFace, value, if_pos ⟨Nat.toDigits_ne_nil, digits, face.toNat_lt⟩, UInt32.ofNat_toNat]

theorem mapM_readFace (faces : List UInt32) : (faces.map numeral).mapM readFace = some faces := by
  induction faces with
  | nil => rfl
  | cons face rest ih =>
    rw [List.map_cons, List.mapM_cons, readFace_numeral, ih]
    rfl

theorem inside_cons_ne_nil (face : UInt32) (rest : List UInt32) : inside (face :: rest) ≠ [] := by
  cases rest with
  | nil => simp [inside, numeral]
  | cons next rest => simp [inside]

theorem readFaces_inside (faces : List UInt32) : readFaces (inside faces) = some faces := by
  cases faces with
  | nil => rfl
  | cons face rest =>
    have apart : ∀ piece ∈ (face :: rest).map numeral, ',' ∉ piece := by
      intro piece member comma
      obtain ⟨other, -, rfl⟩ := List.mem_map.mp member
      exact absurd (numeral_digits other _ comma) (by decide)
    rw [readFaces, if_neg (inside_cons_ne_nil face rest), inside, List.splitOn_intercalate ',' apart (by simp), mapM_readFace]

/-- The bracket that closes a list does not stand inside of it. -/
theorem inside_open (faces : List UInt32) : ∀ c ∈ inside faces, c ≠ ']' := by
  have numeral_open : ∀ face, ∀ c ∈ numeral face, c ≠ ']' := by
    rintro face c member rfl
    exact absurd (numeral_digits face _ member) (by decide)
  induction faces with
  | nil => simp [inside]
  | cons face rest ih =>
    cases rest with
    | nil => simpa [inside] using numeral_open face
    | cons next rest =>
      intro c member
      rw [inside, List.map_cons, List.map_cons, List.intercalate_cons_cons] at member
      simp only [List.mem_append, List.mem_singleton] at member
      rcases member with (here | rfl) | behind
      · exact numeral_open face c here
      · decide
      · exact ih c behind

/-- A list of faces is read back, whatever stands behind it. -/
theorem readList_listFaces (faces : List UInt32) (rest : List Char) :
    readList ((Throw.listFaces faces).toList ++ rest) = some (faces, rest) := by
  have shape : (Throw.listFaces faces).toList ++ rest = '[' :: (inside faces ++ ']' :: rest) := by
    simp [toList_listFaces]
  have still : ∀ c ∈ inside faces, decide (c ≠ ']') = true := fun c member => decide_eq_true (inside_open faces c member)
  have taken : (inside faces ++ ']' :: rest).takeWhile (· ≠ ']') = inside faces := by
    rw [List.takeWhile_append_of_pos still]
    simp
  have dropped : (inside faces ++ ']' :: rest).dropWhile (· ≠ ']') = ']' :: rest := by
    rw [List.dropWhile_append_of_pos still]
    simp
  rw [shape, readList, dropped, taken, readFaces_inside]
  rfl

/-- No list of faces is the beginning of another one. -/
theorem listFaces_unique {text rest : List Char}
    (same : (Throw.listFaces faces).toList ++ text = (Throw.listFaces others).toList ++ rest) : faces = others ∧ text = rest := by
  have read := readList_listFaces faces text
  rw [same, readList_listFaces] at read
  exact ⟨(Prod.mk.inj (Option.some.inj read)).1.symm, (Prod.mk.inj (Option.some.inj read)).2.symm⟩

end Lists

section Texts
variable {throw other : Throw}

def ending (dropped : List UInt32) : List Char :=
  (if dropped.isEmpty then [] else ", dropped:".toList ++ (Throw.listFaces dropped).toList) ++ [')', ' ']

theorem toList_full (throw : Throw) :
    throw.full.toList = ' ' :: throw.name.toList ++ " (scores:".toList ++ ((Throw.listFaces throw.kept).toList ++ ending throw.dropped) := by
  have parts : throw.full = " " ++ throw.name ++ " (scores:" ++ Throw.listFaces throw.kept ++
      (if throw.dropped.isEmpty then "" else ", dropped:" ++ Throw.listFaces throw.dropped) ++ ") " := rfl
  rw [parts, ending]
  split <;> simp

/-- Without a list of dropped faces the text closes at once, and with one there is a comma first. -/
theorem ending_injective (same : ending faces = ending others) : faces = others := by
  cases faces with
  | nil =>
    cases others with
    | nil => rfl
    | cons => simp [ending] at same
  | cons =>
    cases others with
    | nil => simp [ending] at same
    | cons =>
      simp only [ending, List.isEmpty_cons, Bool.false_eq_true, if_false, List.append_assoc] at same
      exact (listFaces_unique (List.append_cancel_left same)).1

theorem full_injective (named : other.name = throw.name) (same : other.full = throw.full) :
    other.kept = throw.kept ∧ other.dropped = throw.dropped := by
  have texts := congrArg String.toList same
  rw [toList_full, toList_full, named] at texts
  obtain ⟨kept, dropped⟩ := listFaces_unique (List.append_cancel_left texts)
  exact ⟨kept, ending_injective dropped⟩

theorem readBrief_brief (throw : Throw) : readBrief throw.brief = some throw.kept := by
  have read := readList_listFaces throw.kept []
  rw [List.append_nil] at read
  rw [readBrief, Throw.brief, read]

end Texts

/-- The short text of a throw is read back as the faces that it keeps, whose sum is its total as far as 64 bits hold it, and two
throws of one name with the same long text have the same faces. -/
theorem format_read (throw : Throw) :
    readBrief (throw.format false) = some throw.kept ∧
      ((((throw.kept.map UInt32.toNat).sum : Nat) : Int) ≤ Int64.maxValue.toInt →
        throw.total.toInt = (throw.kept.map UInt32.toNat).sum) ∧
      ∀ other : Throw, other.name = throw.name → other.format true = throw.format true →
        other.kept = throw.kept ∧ other.dropped = throw.dropped := by
  refine ⟨readBrief_brief throw, fun fits => ?_, fun other => full_injective⟩
  rw [← RollRange.sum_eq] at fits ⊢
  exact Substitution.total_of_sum fits

def lowestDropped : Throw := ⟨[2, 5, 6], [1], "4d6l1"⟩

theorem format_read_lowestDropped :
    lowestDropped.format false = "[2,5,6]" ∧ readBrief (lowestDropped.format false) = some [2, 5, 6] ∧ lowestDropped.total.toInt = 13 ∧
      lowestDropped.format true = " 4d6l1 (scores:[2,5,6], dropped:[1]) " ∧
      lowestDropped.kept = [2, 5, 6] ∧ lowestDropped.dropped = [1] := by
  obtain ⟨read, total, unique⟩ := format_read lowestDropped
  exact ⟨by decide, read, total (by decide), by decide, unique lowestDropped rfl rfl⟩

end DiceNotation.Proofs.ThrowText

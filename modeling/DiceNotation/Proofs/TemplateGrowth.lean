import DiceNotation.Template

/-! What a template says, piece by piece and as it grows: text and placeholders that are added come last, and nothing
before them changes. -/

namespace DiceNotation.Proofs.TemplateGrowth
open Template (Piece)

variable {template : Template} {pieces : List Piece} {text : String} {index : Nat} (value : Nat → String)

def indices : List Piece → List Nat
  | [] => []
  | .text _ :: rest => indices rest
  | .placeholder index :: rest => index :: indices rest

theorem placeholders_eq (template : Template) : template.placeholders = indices template.pieces := by
  rw [Template.placeholders]
  induction template.pieces with
  | nil => rfl
  | cons piece rest ih => cases piece <;> simp [indices, ih]

theorem mem_indices : index ∈ indices pieces ↔ .placeholder index ∈ pieces := by
  induction pieces with
  | nil => simp [indices]
  | cons piece rest ih => cases piece <;> simp [indices, ih]

theorem toList_fill (template : Template) :
    (template.fill value).toList = template.pieces.flatMap fun piece => (piece.fill value).toList := by
  rw [Template.fill, String.toList_join, List.flatMap_map]

/-- Text that is added goes on the last text, or stands behind everything. -/
theorem pieces_pushText (template : Template) (text : String) :
    (text = "" ∧ (template.pushText text).pieces = template.pieces) ∨
    (∃ front last, template.pieces = front ++ [.text last] ∧
      (template.pushText text).pieces = front ++ [.text (last ++ text)]) ∨
    (template.pushText text).pieces = template.pieces ++ [.text text] := by
  rw [Template.pushText]
  split
  next empty => exact .inl ⟨empty, rfl⟩
  next =>
    right
    split
    next last ends =>
      obtain ⟨front, same⟩ := List.getLast?_eq_some_iff.mp ends
      exact .inl ⟨front, last, same, by simp [same]⟩
    all_goals exact .inr rfl

theorem fill_pushText : (template.pushText text).fill value = template.fill value ++ text := by
  obtain ⟨rfl, same⟩ | ⟨front, last, before, after⟩ | same := pieces_pushText template text
  · simp [Template.fill, same]
  · simp [Template.fill, before, after, Piece.fill, String.append_assoc]
  · simp [Template.fill, same, Piece.fill]

theorem fill_pushPlaceholder : (template.pushPlaceholder index).fill value = template.fill value ++ value index := by
  simp [Template.fill, Template.pushPlaceholder, Piece.fill]

theorem placeholders_pushText : (template.pushText text).placeholders = template.placeholders := by
  obtain ⟨-, same⟩ | ⟨front, last, before, after⟩ | same := pieces_pushText template text
  · simp [Template.placeholders, same]
  · simp [Template.placeholders, before, after]
  · simp [Template.placeholders, same]

theorem placeholders_pushPlaceholder :
    (template.pushPlaceholder index).placeholders = template.placeholders ++ [index] := by
  simp [Template.placeholders, Template.pushPlaceholder]

end DiceNotation.Proofs.TemplateGrowth

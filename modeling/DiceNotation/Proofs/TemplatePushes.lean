import DiceNotation.Proofs.TemplateText

/-! Templates as they are put together. However a text is cut where it is pushed, the template holds it in one piece, and
what it says is what was pushed. So templates that say the same are the same, and each is read back from its own text. -/

namespace DiceNotation.Proofs.TemplatePushes
open Template (Piece Merged)
open PatternText TemplateGrowth TemplateText

variable {template other : Template} {pieces pushes others : List Piece} {piece : Piece}

def Apart (first second : Piece) : Prop := ∀ before behind, ¬ (first = .text before ∧ second = .text behind)

theorem merged_iff : Merged pieces ↔ .text "" ∉ pieces ∧ pieces.IsChain Apart := by
  induction pieces with
  | nil => simp [Merged]
  | cons first rest ih =>
    rw [List.mem_cons, not_or, List.isChain_cons]
    cases first with
    | text letters =>
      have next : (∀ other, rest.head? ≠ some (.text other)) ↔ ∀ second ∈ rest.head?, Apart (.text letters) second := by
        constructor
        · rintro none second found before behind ⟨-, rfl⟩
          exact none behind found
        · intro apart other found
          exact apart _ found letters other ⟨rfl, rfl⟩
      have visible : letters ≠ "" ↔ Piece.text "" ≠ .text letters := by simp [eq_comm]
      rw [Merged, ih, next, visible]
      tauto
    | placeholder index =>
      have next : ∀ second ∈ rest.head?, Apart (.placeholder index) second := by
        rintro second - before behind ⟨same, -⟩
        cases same
      rw [Merged, ih]
      exact ⟨fun ⟨visible, apart⟩ => ⟨⟨by simp, visible⟩, next, apart⟩, fun ⟨⟨_, visible⟩, _, apart⟩ => ⟨visible, apart⟩⟩

/-- What may be pushed: text without braces, empty or not, and indices of 64 bits. -/
def Pushable : Piece → Prop
  | .text letters => ∀ c ∈ letters.toList, Plain c
  | .placeholder index => index < UInt64.size

def pushAll (pushes : List Piece) : Template := pushes.foldl push {}

section Steps

theorem readable_push (readable : Readable template) (pushable : Pushable piece) : Readable (push template piece) := by
  cases piece with
  | text letters =>
    refine ⟨pushText_lettered readable.letters pushable, ?_⟩
    rw [push, placeholders_pushText]
    exact readable.indices
  | placeholder index =>
    refine ⟨pushPlaceholder_lettered readable.letters, ?_⟩
    rw [push, placeholders_pushPlaceholder]
    exact List.forall_mem_append.mpr ⟨readable.indices, List.forall_mem_singleton.mpr pushable⟩

theorem placeholders_push (template : Template) (piece : Piece) :
    (push template piece).placeholders = template.placeholders ++ indices [piece] := by
  cases piece with
  | text letters => rw [push, placeholders_pushText, indices, indices, List.append_nil]
  | placeholder index => rw [push, placeholders_pushPlaceholder, indices, indices]

theorem text_push (template : Template) (piece : Piece) :
    (push template piece).text.toList = template.text.toList ++ characters piece := by
  cases piece with
  | text letters => rw [push, Template.text, fill_pushText, String.toList_append, characters, Template.text]
  | placeholder index => rw [push, Template.text, fill_pushPlaceholder, String.toList_append, toList_mark, Template.text]

end Steps

section Runs

theorem readable_pushed (readable : Readable template) (pushable : ∀ piece ∈ pushes, Pushable piece) :
    Readable (pushes.foldl push template) := by
  induction pushes generalizing template with
  | nil => exact readable
  | cons piece rest ih =>
    obtain ⟨here, there⟩ := List.forall_mem_cons.mp pushable
    exact ih (readable_push readable here) there

theorem indices_append (first second : List Piece) : indices (first ++ second) = indices first ++ indices second := by
  induction first with
  | nil => rfl
  | cons piece rest ih => cases piece <;> simp [indices, ih]

theorem placeholders_pushed (template : Template) (pushes : List Piece) :
    (pushes.foldl push template).placeholders = template.placeholders ++ indices pushes := by
  induction pushes generalizing template with
  | nil => simp [indices]
  | cons piece rest ih => rw [List.foldl_cons, ih, placeholders_push, List.append_assoc, ← indices_append, List.singleton_append]

theorem text_pushed (template : Template) (pushes : List Piece) :
    (pushes.foldl push template).text.toList = template.text.toList ++ pushes.flatMap characters := by
  induction pushes generalizing template with
  | nil => simp
  | cons piece rest ih => rw [List.foldl_cons, ih, text_push, List.append_assoc, List.flatMap_cons]

theorem readable_pushAll (pushable : ∀ piece ∈ pushes, Pushable piece) : Readable (pushAll pushes) :=
  readable_pushed ⟨by simp [Lettered], by simp [Template.placeholders]⟩ pushable

end Runs

/-- Templates that can be written are the same if they are written alike. -/
theorem text_inj (readable : Readable template) (readable' : Readable other) : template = other ↔ template.text = other.text := by
  refine ⟨congrArg Template.text, fun same => ?_⟩
  have read := ofText_text_iff.mpr readable
  rw [same, ofText_text_iff.mpr readable'] at read
  exact (Except.ok.inj read).symm

structure Normal (pushes : List Piece) (template : Template) : Prop where
  visible : .text "" ∉ template.pieces
  apart : template.pieces.IsChain Apart
  placeholders : template.placeholders = indices pushes
  written : template.text.toList = pushes.flatMap characters
  reads : Template.ofText template.text = .ok template

theorem normal_pushAll (pushable : ∀ piece ∈ pushes, Pushable piece) : Normal pushes (pushAll pushes) := by
  obtain ⟨visible, apart⟩ := merged_iff.mp (pushAll pushes).merged
  exact ⟨visible, apart, placeholders_pushed {} pushes, text_pushed {} pushes, ofText_text_iff.mpr (readable_pushAll pushable)⟩

/-- Pushing keeps to the one form that is read back, so what two templates say tells them apart; and what is read from a
text is read from its own text as well, however the indices were spelled. -/
theorem pushed_normal :
    (∀ pushes, (∀ piece ∈ pushes, Pushable piece) → Normal pushes (pushAll pushes)) ∧
    (∀ pushes others, (∀ piece ∈ pushes, Pushable piece) → (∀ piece ∈ others, Pushable piece) →
      (pushAll pushes = pushAll others ↔ (pushAll pushes).text = (pushAll others).text)) ∧
    ∀ text template, Template.ofText text = .ok template → Template.ofText template.text = .ok template := by
  refine ⟨fun pushes => normal_pushAll, fun pushes others pushable pushable' => ?_, fun text template read => ?_⟩
  · exact text_inj (readable_pushAll pushable) (readable_pushAll pushable')
  · exact ofText_text_iff.mpr (readable_of_spells (spells_of_ofText read))

/-- A text in cuts, some of them empty, and the same text in one piece; and an index with zeros before it. -/
theorem pushed_normal_cuts :
    ∃ pushes others, pushes = [.text "1", .text "", .text "+", .placeholder 7, .placeholder 0, .text ""] ∧
      others = [.text "1+", .placeholder 7, .text "", .placeholder 0] ∧
      (∀ piece ∈ pushes, Pushable piece) ∧ Normal pushes (pushAll pushes) ∧
      (∀ piece ∈ others, Pushable piece) ∧ pushAll pushes = pushAll others ∧
      ∃ template, Template.ofText "\x7b007\x7d" = .ok template ∧ Template.ofText template.text = .ok template := by
  obtain ⟨normal, inj, again⟩ := pushed_normal
  refine ⟨_, _, rfl, rfl, ?pushable, normal _ ?pushable, ?pushable', (inj _ _ ?pushable ?pushable').mpr (by decide +kernel), ?_⟩
  case pushable => simp [Pushable, Plain, UInt64.size]
  case pushable' => simp [Pushable, Plain, UInt64.size]
  have read : Template.ofText "\x7b007\x7d" = .ok ⟨[.placeholder 7], trivial⟩ := by decide +kernel
  exact ⟨_, read, again _ _ read⟩

end DiceNotation.Proofs.TemplatePushes

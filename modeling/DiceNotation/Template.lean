import DiceNotation.Error

/-! Expressions with holes: text in which the numbered placeholders stand for values that are
filled in later. Neighbouring text is one piece and no piece of text is empty, so two templates
are equal exactly if they are written alike. -/

namespace DiceNotation

inductive Template.Piece where
  | text (characters : String)
  | placeholder (index : Nat)
deriving DecidableEq, Repr

/-- Neighbouring text is one piece, and no piece of text is empty. -/
def Template.Merged : List Template.Piece → Prop
  | [] => True
  | .text characters :: rest =>
    characters ≠ "" ∧ (∀ other, rest.head? ≠ some (.text other)) ∧ Merged rest
  | .placeholder _ :: rest => Merged rest

structure Template where
  pieces : List Template.Piece := []
  merged : Template.Merged pieces := by trivial
deriving DecidableEq, Repr

namespace Template

theorem merged_concat {pieces : List Piece} {piece : Piece} :
    Merged (pieces ++ [piece]) ↔ Merged pieces ∧ piece ≠ .text "" ∧
      ∀ last next, pieces.getLast? = some (.text last) → piece ≠ .text next := by
  induction pieces with
  | nil => cases piece <;> simp [Merged]
  | cons first rest ih =>
    cases rest with
    | nil => cases first <;> cases piece <;> simp [Merged]
    | cons second rest =>
      simp only [List.cons_append] at ih
      cases first <;> simp [Merged, ih, and_assoc]

def pushText (template : Template) (text : String) : Template :=
  if empty : text = "" then template
  else
    match last : template.pieces.getLast? with
    | some (.text characters) =>
      ⟨template.pieces.dropLast ++ [.text (characters ++ text)], by
        obtain ⟨front, pieces⟩ := List.getLast?_eq_some_iff.mp last
        have merged := merged_concat.mp (pieces ▸ template.merged)
        rw [pieces, List.dropLast_concat]
        refine merged_concat.mpr ⟨merged.1, by simp [empty], ?_⟩
        intro before next ends
        exact absurd rfl (merged.2.2 before characters ends)⟩
    | none | some (.placeholder _) =>
      ⟨template.pieces ++ [.text text], by
        refine merged_concat.mpr ⟨template.merged, by simp [empty], ?_⟩
        simp [last]⟩

def pushPlaceholder (template : Template) (index : Nat) : Template :=
  ⟨template.pieces ++ [.placeholder index], merged_concat.mpr ⟨template.merged, by simp, by simp⟩⟩

def placeholders (template : Template) : List Nat :=
  template.pieces.filterMap fun
    | .text _ => none
    | .placeholder index => some index

def Piece.fill (value : Nat → String) : Piece → String
  | .text characters => characters
  | .placeholder index => value index

def fill (template : Template) (value : Nat → String) : String :=
  String.join (template.pieces.map (·.fill value))

/-- Stops at the first placeholder that has no value. -/
def render {ε : Type} (template : Template) (value : Nat → Except ε String) : Except ε String :=
  go template.pieces
where
  go : List Piece → Except ε String
    | [] => .ok ""
    | .text characters :: rest => return characters ++ (← go rest)
    | .placeholder index :: rest => return (← value index) ++ (← go rest)

def text (template : Template) : String :=
  template.fill fun index => s!"\x7b{index}\x7d"

/-- Reads on after `inside`, the digits since a brace was opened, or outside of all braces. An
index has to fit in 64 bits. -/
def read (template : Template) : Option (List Char) → List Char → Option Template
  | none, [] => some template
  | none, '{' :: rest => read template (some []) rest
  | none, '}' :: _ => none
  | none, c :: rest => read (template.pushText (String.singleton c)) none rest
  | some _, [] => none
  | some inside, c :: rest =>
    let index := Nat.ofDigitChars 10 inside 0
    if c.isDigit then read template (some (inside ++ [c])) rest
    else if c = '}' ∧ inside ≠ [] ∧ index < UInt64.size then
      read (template.pushPlaceholder index) none rest
    else none

/-- Every brace has to belong to a placeholder. -/
def ofText (text : String) : Except Error Template :=
  match read {} none text.toList with
  | some template => .ok template
  | none => .error (.malformed text)

end Template

end DiceNotation

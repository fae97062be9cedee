import DiceNotation.Proofs.Extraction
import DiceNotation.Proofs.PatternText
import DiceNotation.Proofs.Substitution

/-! Templates as they are written. A text is a template if it can be cut into parts that are text without braces or
numbers between braces, and the template then holds these parts in order. Compiling copies what stands between the
groups of a source as it is, braces too, so a compiled template is what its text says exactly where the source has no
brace. -/

namespace DiceNotation.Proofs.TemplateText
open Template (Piece Merged)
open DiceNotation.Proofs.Extraction PatternCalls PatternText TemplateGrowth

variable {template other : Template} {pieces front behind : List Piece} {letters rest digits : List Char} {index : Nat}

def Plain (c : Char) : Prop := c ≠ '{' ∧ c ≠ '}'

/-- A template that can be written: no text of it could be taken for a placeholder, and all indices fit in 64 bits. -/
structure Readable (template : Template) : Prop where
  letters : Lettered Plain template
  indices : ∀ index ∈ template.placeholders, index < UInt64.size

section Pushing

theorem ext_pieces (same : template.pieces = other.pieces) : template = other := by
  cases template
  cases other
  congr

theorem pushText_empty (template : Template) : template.pushText "" = template := by
  rw [Template.pushText, dif_pos rfl]

theorem pieces_pushText_onto {last text : String} (ends : template.pieces = front ++ [.text last]) :
    (template.pushText text).pieces = front ++ [.text (last ++ text)] := by
  obtain ⟨rfl, same⟩ | ⟨front', last', same, pushed⟩ | same := pieces_pushText template text
  · rw [same, ends, String.append_empty]
  · obtain ⟨rfl, tail⟩ := List.append_inj' (ends.symm.trans same) rfl
    obtain rfl : last = last' := by simpa using tail
    exact pushed
  · have merged := (template.pushText text).merged
    rw [same] at merged
    exact absurd rfl ((Template.merged_concat.mp merged).2.2 last text (by simp [ends]))

theorem pieces_pushText_apart {text : String} (visible : text ≠ "")
    (apart : ∀ last, template.pieces.getLast? ≠ some (.text last)) :
    (template.pushText text).pieces = template.pieces ++ [.text text] := by
  obtain ⟨rfl, -⟩ | ⟨front, last, same, -⟩ | same := pieces_pushText template text
  · contradiction
  · exact absurd (by simp [same]) (apart last)
  · exact same

theorem pushText_pushText (template : Template) (first second : String) :
    (template.pushText first).pushText second = template.pushText (first ++ second) := by
  apply ext_pieces
  obtain ⟨rfl, same⟩ | ⟨front, last, ends, same⟩ | same := pieces_pushText template first
  · rw [pushText_empty, String.empty_append]
  · rw [pieces_pushText_onto same, pieces_pushText_onto ends, String.append_assoc]
  · have merged := (template.pushText first).merged
    rw [same] at merged
    obtain ⟨-, visible, apart⟩ := Template.merged_concat.mp merged
    rw [pieces_pushText_onto same, pieces_pushText_apart]
    · exact fun empty => visible (congrArg Piece.text (String.append_eq_empty_iff.mp empty).1)
    · intro last ends
      exact absurd rfl (apart last first ends)

end Pushing

section Reading

/-- Text without braces is taken as it is. -/
theorem read_letters (plain : ∀ c ∈ letters, Plain c) :
    template.read none (letters ++ rest) = (template.pushText (String.ofList letters)).read none rest := by
  induction letters generalizing template with
  | nil => rw [String.ofList_nil, pushText_empty, List.nil_append]
  | cons c letters ih =>
    obtain ⟨⟨opening, closing⟩, behind⟩ := List.forall_mem_cons.mp plain
    rw [List.cons_append, Template.read, ih behind, pushText_pushText, String.singleton_eq_ofList, ← String.ofList_append,
      List.singleton_append]
    · exact opening
    · exact closing

theorem read_digits {inside : List Char} (numeric : ∀ c ∈ digits, c.isDigit = true) :
    template.read (some inside) (digits ++ rest) = template.read (some (inside ++ digits)) rest := by
  induction digits generalizing inside with
  | nil => rw [List.nil_append, List.append_nil]
  | cons c digits ih =>
    obtain ⟨digit, behind⟩ := List.forall_mem_cons.mp numeric
    rw [List.cons_append, Template.read, if_pos digit, ih behind, List.append_assoc, List.singleton_append]

/-- Any digits may stand for an index, if their number fits. -/
theorem read_placeholder (some : digits ≠ []) (numeric : ∀ c ∈ digits, c.isDigit = true)
    (fits : Nat.ofDigitChars 10 digits 0 < UInt64.size) :
    template.read none ('{' :: (digits ++ '}' :: rest)) =
      (template.pushPlaceholder (Nat.ofDigitChars 10 digits 0)).read none rest := by
  rw [Template.read, read_digits numeric, List.nil_append, Template.read, if_neg (by decide), if_pos ⟨rfl, some, fits⟩]

def characters : Piece → List Char
  | .text letters => letters.toList
  | .placeholder index => '{' :: (Nat.toDigits 10 index ++ ['}'])

theorem toList_mark (index : Nat) : s!"\x7b{index}\x7d".toList = characters (.placeholder index) := by
  change ("\x7b" ++ index.repr ++ "\x7d").toList = _
  rw [String.toList_append, String.toList_append, Nat.toList_repr]
  rfl

theorem toList_text (template : Template) : template.text.toList = template.pieces.flatMap characters := by
  rw [Template.text, toList_fill]
  congr 1
  funext piece
  cases piece with
  | text letters => rfl
  | placeholder index => exact toList_mark index

private theorem merged_left (merged : Merged (front ++ behind)) : Merged front := by
  induction front with
  | nil => trivial
  | cons piece front ih =>
    cases piece with
    | placeholder index => exact ih merged
    | text letters =>
      obtain ⟨visible, apart, merged⟩ := merged
      refine ⟨visible, fun other first => apart other ?_, ih merged⟩
      obtain ⟨others, rfl⟩ := List.head?_eq_some_iff.mp first
      rfl

/-- What is read as one piece: text without braces, and any digits between two of them whose number fits. -/
inductive Written : Piece → List Char → Prop where
  | text {letters : String} (plain : ∀ c ∈ letters.toList, Plain c) : Written (.text letters) letters.toList
  | placeholder {digits : List Char} (some : digits ≠ []) (numeric : ∀ c ∈ digits, c.isDigit = true)
      (fits : Nat.ofDigitChars 10 digits 0 < UInt64.size) :
      Written (.placeholder (Nat.ofDigitChars 10 digits 0)) ('{' :: (digits ++ ['}']))

def push (template : Template) : Piece → Template
  | .text letters => template.pushText letters
  | .placeholder index => template.pushPlaceholder index

/-- Pieces that are written one behind the other are read in this order. -/
theorem read_written {parts : List (List Char)} (written : List.Forall₂ Written pieces parts) :
    template.read none parts.flatten = some (pieces.foldl push template) := by
  induction written generalizing template with
  | nil => rfl
  | @cons piece part pieces parts here _ ih =>
    rw [List.flatten_cons, List.foldl_cons]
    cases here with
    | text plain =>
      rw [read_letters plain, String.ofList_toList]
      exact ih
    | placeholder some numeric fits =>
      rw [List.cons_append, List.append_assoc, List.singleton_append, read_placeholder some numeric fits]
      exact ih

/-- Pieces that a template can go on with stand in it as they are. -/
theorem pieces_pushed (merged : Merged (template.pieces ++ pieces)) :
    (pieces.foldl push template).pieces = template.pieces ++ pieces := by
  induction pieces generalizing template with
  | nil => simp
  | cons piece pieces ih =>
    rw [List.append_cons] at merged
    have pushed : (push template piece).pieces = template.pieces ++ [piece] := by
      cases piece with
      | placeholder index => rfl
      | text letters =>
        obtain ⟨-, visible, apart⟩ := Template.merged_concat.mp (merged_left merged)
        exact pieces_pushText_apart (fun empty => visible (congrArg Piece.text empty)) fun last ends => apart last letters ends rfl
    rw [← pushed] at merged
    rw [List.foldl_cons, ih merged, pushed, ← List.append_cons]

/-- A template is the pieces that it is made of. -/
theorem foldl_push (template : Template) : template.pieces.foldl push {} = template := by
  have start : Merged (({} : Template).pieces ++ template.pieces) := template.merged
  exact ext_pieces (pieces_pushed start)

theorem characters_written (readable : Readable template) : ∀ piece ∈ template.pieces, Written piece (characters piece) := by
  intro piece member
  cases piece with
  | text letters => exact .text (readable.letters letters member)
  | placeholder index =>
    have fits := readable.indices index (by rw [placeholders_eq]; exact mem_indices.mpr member)
    have digits : Nat.ofDigitChars 10 (Nat.toDigits 10 index) 0 = index := Nat.ofDigitChars_ten_toDigits
    have written := Written.placeholder Nat.toDigits_ne_nil (Substitution.digits_toDigits index) (by rwa [digits])
    rwa [digits] at written

theorem ofText_eq_ok {text : String} : Template.ofText text = .ok template ↔ Template.read {} none text.toList = some template := by
  rw [Template.ofText]
  split <;> simp_all

end Reading

section Grammar
variable {before after : List Char}

/-- The text can be cut into these pieces. In a cut there may be text without letters and several texts in a row, but
never in a template, so at most one template spells a text. -/
def Spells (pieces : List Piece) (text : List Char) : Prop :=
  ∃ parts, List.Forall₂ Written pieces parts ∧ parts.flatten = text

theorem spells_nothing : Spells [] [] := ⟨[], .nil, rfl⟩

theorem spells_single {piece : Piece} {part : List Char} : Spells [piece] part ↔ Written piece part := by
  constructor
  · rintro ⟨parts, written, rfl⟩
    obtain ⟨part, rest, here, none, rfl⟩ := List.forall₂_cons_left_iff.mp written
    rw [List.forall₂_nil_left_iff.mp none, List.flatten_singleton]
    exact here
  · intro written
    exact ⟨[part], .cons written .nil, by simp⟩

theorem spells_append {text : List Char} :
    Spells (front ++ behind) text ↔ ∃ before after, Spells front before ∧ Spells behind after ∧ before ++ after = text := by
  constructor
  · rintro ⟨parts, written, rfl⟩
    have here := (List.forall₂_take_append parts front behind written.flip).flip
    have there := (List.forall₂_drop_append parts front behind written.flip).flip
    refine ⟨_, _, ⟨_, here, rfl⟩, ⟨_, there, rfl⟩, ?_⟩
    rw [← List.flatten_append, List.take_append_drop]
  · rintro ⟨before, after, ⟨first, here, rfl⟩, ⟨last, there, rfl⟩, rfl⟩
    exact ⟨first ++ last, List.rel_append here there, by simp⟩

theorem spells_pushText {text : String} (spells : Spells template.pieces before) (plain : ∀ c ∈ text.toList, Plain c) :
    Spells (template.pushText text).pieces (before ++ text.toList) := by
  obtain ⟨rfl, same⟩ | ⟨front, last, ends, same⟩ | same := pieces_pushText template text
  · rw [same]
    simpa using spells
  · rw [ends, spells_append] at spells
    obtain ⟨first, part, here, there, rfl⟩ := spells
    cases spells_single.mp there with
    | text plainLast =>
      have grown : Written (.text (last ++ text)) (last ++ text).toList := by
        apply Written.text
        rw [String.toList_append]
        exact List.forall_mem_append.mpr ⟨plainLast, plain⟩
      rw [same, spells_append]
      exact ⟨first, _, here, spells_single.mpr grown, by simp⟩
  · rw [same, spells_append]
    exact ⟨before, _, spells, spells_single.mpr (.text plain), rfl⟩

theorem spells_pushPlaceholder {digits : List Char} (spells : Spells template.pieces before)
    (written : Written (.placeholder (Nat.ofDigitChars 10 digits 0)) ('{' :: (digits ++ ['}']))) :
    Spells (template.pushPlaceholder (Nat.ofDigitChars 10 digits 0)).pieces (before ++ '{' :: (digits ++ ['}'])) :=
  spells_append.mpr ⟨before, _, spells, spells_single.mpr written, rfl⟩

def opened : Option (List Char) → List Char
  | none => []
  | some digits => '{' :: digits

/-- A template that is read spells all of the text, what was read before included. -/
theorem spells_of_read {inside : Option (List Char)} (numeric : ∀ digits ∈ inside, ∀ c ∈ digits, c.isDigit = true)
    (read : template.read inside after = some other) :
    ∀ before, Spells template.pieces before → Spells other.pieces (before ++ opened inside ++ after) := by
  revert numeric read
  fun_induction Template.read template inside after with
  | case1 template =>
    intro _ read before spells
    cases read
    simpa [opened] using spells
  | case2 template rest ih =>
    intro _ read before spells
    have spelled := ih (by simp) read before spells
    simpa [opened] using spelled
  | case4 template c rest opening closing ih =>
    intro _ read before spells
    have plain : ∀ letter ∈ (String.singleton c).toList, Plain letter := by
      simp only [String.toList_singleton, List.forall_mem_singleton]
      exact ⟨opening, closing⟩
    have spelled := ih (by simp) read _ (spells_pushText spells plain)
    simpa [opened] using spelled
  | case6 template inside c rest digit ih =>
    intro numeric read before spells
    have digits : ∀ letter ∈ inside ++ [c], letter.isDigit = true :=
      List.forall_mem_append.mpr ⟨numeric inside rfl, List.forall_mem_singleton.mpr digit⟩
    have spelled := ih (by simpa using digits) read before spells
    simpa [opened] using spelled
  | case7 template inside c rest index digit closed ih =>
    intro numeric read before spells
    obtain ⟨rfl, some, fits⟩ := closed
    have spelled := ih (by simp) read _ (spells_pushPlaceholder spells (.placeholder some (numeric inside rfl) fits))
    simpa [opened] using spelled
  | case3 | case5 | case8 =>
    intro _ read
    contradiction

theorem spells_of_ofText {text : String} (read : Template.ofText text = .ok template) : Spells template.pieces text.toList :=
  spells_of_read (by simp) (ofText_eq_ok.mp read) [] spells_nothing

theorem ofText_of_spells {text : String} (spells : Spells pieces text.toList) :
    Template.ofText text = .ok (pieces.foldl push {}) := by
  obtain ⟨parts, written, same⟩ := spells
  rw [ofText_eq_ok, ← same]
  exact read_written written

/-- Exactly the texts that can be cut into pieces are templates, and each is the one template that it spells. -/
theorem ofText_spells (text : String) :
    (∀ template, Template.ofText text = .ok template ↔ Spells template.pieces text.toList) ∧
    ((∃ template, Template.ofText text = .ok template) ↔ ∃ pieces, Spells pieces text.toList) ∧
    (Template.ofText text = .error (.malformed text) ↔ ¬ ∃ pieces, Spells pieces text.toList) := by
  refine ⟨fun template => ⟨spells_of_ofText, fun spells => ?_⟩, ⟨?_, ?_⟩, ?_, ?_⟩
  · rw [ofText_of_spells spells, foldl_push]
  · intro ⟨template, read⟩
    exact ⟨template.pieces, spells_of_ofText read⟩
  · intro ⟨pieces, spells⟩
    exact ⟨_, ofText_of_spells spells⟩
  · intro refused ⟨pieces, spells⟩
    rw [ofText_of_spells spells] at refused
    contradiction
  · intro none
    rw [Template.ofText]
    split
    next template read => exact absurd ⟨_, spells_of_ofText (ofText_eq_ok.mpr read)⟩ none
    next => rfl

example :
    (Template.ofText "max({007},0)").map (·.pieces) = .ok [.text "max(", .placeholder 7, .text ",0)"] ∧
    Template.ofText "{18446744073709551616}" = .error (.malformed "{18446744073709551616}") := by
  decide +kernel

theorem written_of_spells {text : List Char} (spells : Spells pieces text) : ∀ piece ∈ pieces, ∃ part, Written piece part := by
  obtain ⟨parts, written, -⟩ := spells
  induction written with
  | nil => exact List.forall_mem_nil _
  | cons here _ ih => exact List.forall_mem_cons.mpr ⟨⟨_, here⟩, ih⟩

/-- Whatever is read could be written in figures as well. -/
theorem readable_of_spells {text : List Char} (spells : Spells template.pieces text) : Readable template := by
  have written := written_of_spells spells
  constructor
  · intro letters member
    obtain ⟨part, here⟩ := written _ member
    cases here with
    | text plain => exact plain
  · intro index member
    rw [placeholders_eq, mem_indices] at member
    obtain ⟨part, here⟩ := written _ member
    cases here with
    | placeholder _ _ fits => exact fits

/-- The templates that are read from their own texts. -/
theorem ofText_text_iff : Template.ofText template.text = .ok template ↔ Readable template := by
  constructor
  · intro read
    exact readable_of_spells (spells_of_ofText read)
  · intro readable
    have written : List.Forall₂ Written template.pieces (template.pieces.map characters) :=
      List.forall₂_map_right_iff.mpr (List.forall₂_same.mpr (characters_written readable))
    rw [ofText_of_spells ⟨_, written, by rw [toList_text, List.flatMap_def]⟩, foldl_push]

end Grammar

section Counting
variable {c : Char}

private theorem brace_outside (brace : c = '{' ∨ c = '}') : ¬ (c.isDigit = true ∨ c ∈ ['d', 'l', 'h']) := by
  rcases brace with rfl | rfl <;> decide

private theorem count_braced (brace : c = '{' ∨ c = '}') (numeric : ∀ c ∈ digits, c.isDigit = true) :
    ('{' :: (digits ++ ['}'])).count c = 1 := by
  have none : digits.count c = 0 := List.count_eq_zero.mpr fun member => brace_outside brace (.inl (numeric c member))
  rcases brace with rfl | rfl <;> simp [none]

private theorem count_plain (brace : c = '{' ∨ c = '}') (plain : ∀ c ∈ letters, Plain c) : letters.count c = 0 := by
  rw [List.count_eq_zero]
  intro member
  rcases brace with rfl | rfl
  · exact (plain _ member).1 rfl
  · exact (plain _ member).2 rfl

/-- Every brace of a text opens or closes a placeholder. -/
theorem count_spells {text : List Char} (brace : c = '{' ∨ c = '}') (spells : Spells pieces text) :
    text.count c = (indices pieces).length := by
  obtain ⟨parts, written, rfl⟩ := spells
  induction written with
  | nil => rfl
  | cons here _ ih =>
    rw [List.flatten_cons, List.count_append, ih]
    cases here with
    | text plain => rw [count_plain brace plain, Nat.zero_add, indices]
    | placeholder _ numeric _ => rw [count_braced brace numeric, Nat.add_comm, indices, List.length_cons]

theorem count_fill {value : Nat → String} {c : Char} {times : Nat} (each : ∀ index, (value index).toList.count c = times)
    (template : Template) :
    (template.fill value).toList.count c =
      times * template.placeholders.length + (template.fill fun _ => "").toList.count c := by
  rw [toList_fill, toList_fill, placeholders_eq]
  induction template.pieces with
  | nil => rfl
  | cons piece rest ih =>
    rw [List.flatMap_cons, List.flatMap_cons, List.count_append, List.count_append, ih]
    cases piece with
    | text letters =>
      simp only [indices, Piece.fill]
      omega
    | placeholder index =>
      simp only [indices, Piece.fill, each, List.length_cons, Nat.mul_succ, String.toList_empty, List.count_nil]
      omega

end Counting

section Compiling
variable {pattern compiled : Pattern} {c : Char}

def Unbraced (source : String) : Prop := ∀ c ∈ source.toList, Plain c

private theorem count_mark (brace : c = '{' ∨ c = '}') (index : Nat) : s!"\x7b{index}\x7d".toList.count c = 1 := by
  rw [toList_mark]
  exact count_braced brace (Substitution.digits_toDigits index)

private theorem count_group (brace : c = '{' ∨ c = '}') (source : String) (index : Nat) :
    ((groupTexts source)[index]?.getD "").toList.count c = 0 := by
  refine List.count_eq_zero.mpr fun member => ?_
  cases found : (groupTexts source)[index]? with
  | none => simp [found] at member
  | some group =>
    rw [found, Option.getD_some] at member
    exact brace_outside brace (mem_groupTexts (List.mem_of_getElem? found) c member)

/-- A compiled template is written with one pair of braces for each group, and with those of the source. -/
theorem count_compiled (compiled : Compiled pattern) (brace : c = '{' ∨ c = '}') :
    pattern.template.text.toList.count c = pattern.dice.length + pattern.source.toList.count c := by
  -- Filled with the groups, which have no braces, the template is the source.
  have restored := count_fill (count_group brace pattern.source) pattern.template
  rw [compiled.restored, Nat.zero_mul, Nat.zero_add] at restored
  rw [Template.text, count_fill (count_mark brace), ← restored, compiled.numbered, List.length_range, Nat.one_mul]

/-- What is read of a compiled template's text has a placeholder for each group, and one for each brace that the
source opens, and as many for those that it closes. -/
theorem length_of_compiled (compiled : Compiled pattern) (read : Template.ofText pattern.template.text = .ok other) :
    other.placeholders.length = pattern.dice.length + pattern.source.toList.count '{' ∧
      other.placeholders.length = pattern.dice.length + pattern.source.toList.count '}' := by
  have spells := spells_of_ofText read
  rw [placeholders_eq, ← count_compiled compiled (.inl rfl), ← count_compiled compiled (.inr rfl)]
  exact ⟨(count_spells (.inl rfl) spells).symm, (count_spells (.inr rfl) spells).symm⟩

private theorem unbraced_iff {source : String} :
    Unbraced source ↔ source.toList.count '{' = 0 ∧ source.toList.count '}' = 0 := by
  rw [List.count_eq_zero, List.count_eq_zero]
  constructor
  · intro plain
    exact ⟨fun member => (plain _ member).1 rfl, fun member => (plain _ member).2 rfl⟩
  · rintro ⟨opening, closing⟩ c member
    constructor <;> rintro rfl <;> contradiction

private theorem lettered_of_compile (compiles : pattern.compile.value = (.ok (), compiled)) {P : Char → Prop}
    (all : ∀ c ∈ pattern.source.toList, P c) : Lettered P compiled.template := by
  cases extracts : pattern.extract with
  | error violation =>
    rw [compile_error extracts] at compiles
    cases compiles
  | ok extraction =>
    rw [compile_ok extracts] at compiles
    cases compiles
    exact ofFragments_lettered (split_lettered all) extracts

/-- The text of a compiled template is read as this template where the source has no brace. Otherwise a brace of the
source is taken for one of a placeholder, and what is read, if anything is, has more placeholders than the pattern has
groups. -/
theorem compiled_reads_back (compiles : pattern.compile.value = (.ok (), compiled)) :
    (Template.ofText compiled.template.text = .ok compiled.template ↔
      Unbraced pattern.source ∧ compiled.dice.length ≤ UInt64.size) ∧
    compiled.template.placeholders.length = compiled.dice.length ∧
    (¬ Unbraced pattern.source →
      ∀ other, Template.ofText compiled.template.text = .ok other → compiled.dice.length < other.placeholders.length) := by
  obtain ⟨source, holds⟩ : compiled.source = pattern.source ∧ Compiled compiled := by
    have done := compiled_of_ok (congrArg Prod.fst compiles)
    rwa [compiles] at done
  have length : compiled.template.placeholders.length = compiled.dice.length := by rw [holds.numbered, List.length_range]
  have numbered : (∀ index ∈ compiled.template.placeholders, index < UInt64.size) ↔ compiled.dice.length ≤ UInt64.size := by
    simp only [holds.numbered, List.mem_range]
    exact ⟨fun below => Nat.not_lt.mp fun more => Nat.lt_irrefl _ (below _ more), fun few index below => by omega⟩
  refine ⟨⟨fun read => ⟨?_, ?_⟩, fun ⟨plain, few⟩ => ?_⟩, length, fun braced other read => ?_⟩
  · obtain ⟨opened, closed⟩ := length_of_compiled holds read
    rw [unbraced_iff, ← source]
    omega
  · exact numbered.mp (ofText_text_iff.mp read).indices
  · exact ofText_text_iff.mpr ⟨lettered_of_compile compiles plain, numbered.mpr few⟩
  · obtain ⟨opened, closed⟩ := length_of_compiled holds read
    rw [unbraced_iff, ← source] at braced
    omega

private theorem made_source {source : String} {text : String} (normal : normalize text = source) (filled : source ≠ "") :
    Pattern.ofText text = .ok { source } := by
  subst normal
  exact ofText_ok.mpr ⟨filled, rfl⟩

private theorem compiles_ok (pattern : Pattern) (compiles : pattern.compile.value.1 = .ok ()) :
    pattern.compile.value = (.ok (), pattern.compile.value.2) :=
  Prod.ext compiles rfl

/-- A pattern that is read back, and one whose source opens a brace of its own. -/
theorem compiled_reads_back_groups :
    (∃ pattern compiled : Pattern, Pattern.ofText "Max(2d6, D%) - d4L1" = .ok pattern ∧
      pattern.compile.value = (.ok (), compiled) ∧
      compiled.template.text = "max(\x7b0\x7d,\x7b1\x7d)-\x7b2\x7d" ∧
      Template.ofText compiled.template.text = .ok compiled.template) ∧
    ∃ pattern compiled : Pattern, Pattern.ofText "d6 + \x7b7\x7d" = .ok pattern ∧
      pattern.compile.value = (.ok (), compiled) ∧ compiled.dice.length = 1 ∧
      ∃ other, Template.ofText compiled.template.text = .ok other ∧ compiled.dice.length < other.placeholders.length := by
  constructor
  · have compiles := compiles_ok { source := "max(2d6,d100)-d4l1" } (by decide +kernel)
    obtain ⟨reads, -⟩ := compiled_reads_back compiles
    refine ⟨_, _, made_source (by decide +kernel) (by decide), compiles, by decide +kernel, reads.mpr ⟨?_, by decide +kernel⟩⟩
    exact unbraced_iff.mpr (by decide +kernel)
  · have compiles := compiles_ok { source := "d6+\x7b7\x7d" } (by decide +kernel)
    have braced : ¬ Unbraced "d6+\x7b7\x7d" := unbraced_iff.not.mpr (by decide +kernel)
    have read : Template.ofText (Pattern.compile { source := "d6+\x7b7\x7d" }).value.2.template.text =
        .ok ⟨[.placeholder 0, .text "+", .placeholder 7], by simp [Merged]⟩ := by
      decide +kernel
    obtain ⟨-, -, more⟩ := compiled_reads_back compiles
    exact ⟨_, _, made_source (by decide +kernel) (by decide), compiles, by decide +kernel, _, read, more braced _ read⟩

/-- A brace of the source is taken for that of a placeholder. -/
theorem compiled_text_mistaken : ∃ pattern compiled : Pattern, Pattern.ofText "\x7b0\x7d + 1d6" = .ok pattern ∧
    pattern.compile.value = (.ok (), compiled) ∧ compiled.dice.length = 1 ∧
    (∃ other, Template.ofText compiled.template.text = .ok other ∧ other.placeholders = [0, 0]) ∧
    ¬ Template.ofText compiled.template.text = .ok compiled.template := by
  have compiles := compiles_ok { source := "\x7b0\x7d+1d6" } (by decide +kernel)
  have read : Template.ofText (Pattern.compile { source := "\x7b0\x7d+1d6" }).value.2.template.text =
      .ok ⟨[.placeholder 0, .text "+", .placeholder 0], by simp [Merged]⟩ := by
    decide +kernel
  exact ⟨_, _, made_source (by decide +kernel) (by decide), compiles, by decide +kernel, ⟨_, read, by decide⟩, by decide +kernel⟩

end Compiling

end DiceNotation.Proofs.TemplateText

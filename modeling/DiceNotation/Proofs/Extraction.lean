import DiceNotation.Proofs.PatternText
import DiceNotation.Proofs.Scanning
import DiceNotation.Proofs.TemplateGrowth

/-! What compiling takes out of a text, and what it leaves there. Each group becomes the dice that its text alone
is read as, and putting the groups' texts back in the place of the placeholders restores the source. -/

namespace DiceNotation.Proofs.Extraction
open Dice (Spelling Violation)
open PatternCalls Runs Scanning TemplateGrowth

variable {text : List Char} {fragments : List Fragment} {spelling : Spelling}
variable {extraction extraction' : Extraction}

/-- A character that the normal form keeps as it is. -/
def Kept (c : Char) : Prop := squeeze [c] = [c] ∧ c ≠ '%'

instance (c : Char) : Decidable (Kept c) := inferInstanceAs (Decidable (_ ∧ _))

private theorem kept_codes : ∀ code < 58, 48 ≤ code → Kept (Char.ofNat code) := by
  decide

private theorem kept_digit {c : Char} (digit : c.isDigit = true) : Kept c := by
  have range : 48 ≤ c.toNat ∧ c.toNat ≤ 57 := by
    simp only [Char.isDigit, Bool.and_eq_true, decide_eq_true_eq, ge_iff_le, UInt32.le_iff_toNat_le] at digit
    exact digit
  rw [← Char.ofNat_toNat c]
  exact kept_codes c.toNat (Nat.lt_succ_of_le range.2) range.1

private theorem squeeze_kept (kept : ∀ c ∈ text, Kept c) : squeeze text = text := by
  induction text with
  | nil => rfl
  | cons c rest ih =>
    obtain ⟨here, there⟩ := List.forall_mem_cons.mp kept
    rw [← List.singleton_append, PatternText.squeeze_append, here.1, ih there]

private theorem expandPercent_kept (kept : ∀ c ∈ text, Kept c) : expandPercent text = text := by
  induction text with
  | nil => rfl
  | cons c rest ih =>
    have plain : ∀ others, c = 'd' → rest ≠ '%' :: others := by
      rintro others - rfl
      exact absurd rfl (kept '%' (by simp)).2
    rw [expandPercent, ih (List.forall_mem_cons.mp kept).2]
    exact plain

private theorem kept_written (numeric : Numeric spelling) : ∀ c ∈ written spelling, Kept c := by
  have letters : ∀ c ∈ ['d', 'l', 'h'], Kept c := by
    simp only [List.forall_mem_cons]
    exact ⟨by decide, by decide, by decide, by simp⟩
  exact fun c member => (mem_written numeric c member).elim kept_digit (letters c)

/-- A group's text is its own normal form. -/
theorem normalize_written (numeric : Numeric spelling) :
    normalize (String.ofList (written spelling)) = String.ofList (written spelling) := by
  have kept := kept_written numeric
  rw [normalize, String.toList_ofList, squeeze_kept kept, expandPercent_kept kept]

/-- A text that is one group is judged as this group. -/
theorem ofText_group {text : String} (found : Spelling.read? (normalize text).toList = some (spelling, [])) :
    Dice.ofText text = spelling.dice.mapError Error.invalid := by
  simp only [Dice.ofText, found]
  cases spelling.dice <;> rfl

/-- The text of a group is read by itself as the dice that the group stands for. -/
theorem ofText_written (numeric : Numeric spelling) :
    Dice.ofText (String.ofList (written spelling)) = spelling.dice.mapError Error.invalid :=
  ofText_group (by rw [normalize_written numeric, String.toList_ofList, read?_written numeric])

/-- What the fragments so far have given: the dice of their groups in order, and a template that numbers them. -/
structure Extracted (fragments : List Fragment) (extraction : Extraction) : Prop where
  dice : List.Forall₂ (fun spelling dice => spelling.dice = .ok dice) (groups fragments) extraction.dice
  numbered : extraction.template.placeholders = List.range extraction.dice.length
  restored : ∀ value : Nat → String,
    (∀ index spelling, (groups fragments)[index]? = some spelling → value index = String.ofList (written spelling)) →
    extraction.template.fill value = String.ofList (fragments.flatMap characters)

private theorem groups_concat (fragments : List Fragment) (fragment : Fragment) :
    groups (fragments ++ [fragment]) = groups fragments ++ groups [fragment] := by
  induction fragments with
  | nil => rfl
  | cons first rest ih => cases first <;> simp [groups, ih]

private theorem extracted_nothing : Extracted [] {} := ⟨.nil, rfl, fun _ _ => rfl⟩

private theorem extracted_text {letters : List Char} (extracted : Extracted fragments extraction)
    (added : extraction.add (.text letters) = .ok extraction') :
    Extracted (fragments ++ [.text letters]) extraction' := by
  obtain rfl := Except.ok.inj added
  have same : groups (fragments ++ [.text letters]) = groups fragments := by simp [groups_concat, groups]
  refine ⟨same ▸ extracted.dice, placeholders_pushText.trans extracted.numbered, fun value values => ?_⟩
  rw [same] at values
  rw [fill_pushText, extracted.restored value values, ← String.ofList_append, List.flatMap_append, List.flatMap_singleton,
    characters]

private theorem extracted_group (extracted : Extracted fragments extraction)
    (added : extraction.add (.group spelling) = .ok extraction') :
    Extracted (fragments ++ [.group spelling]) extraction' := by
  rw [Extraction.add] at added
  obtain ⟨dice, judged, added⟩ := bind_ok.mp added
  obtain rfl := Except.ok.inj added
  have same : groups (fragments ++ [.group spelling]) = groups fragments ++ [spelling] := groups_concat _ _
  have count : (groups fragments).length = extraction.dice.length := extracted.dice.length_eq
  refine ⟨?_, ?_, fun value values => ?_⟩
  · rw [same]
    exact List.rel_append extracted.dice (.cons judged .nil)
  · rw [placeholders_pushPlaceholder, extracted.numbered, List.length_append, List.length_singleton, List.range_succ]
  · rw [same] at values
    have before := extracted.restored value fun index spelling found => values index spelling <| by
      rw [List.getElem?_append_left (List.getElem?_eq_some_iff.mp found).1, found]
    have last : value extraction.dice.length = String.ofList (written spelling) := values _ _ (by simp [← count])
    rw [fill_pushPlaceholder, before, last, ← String.ofList_append, List.flatMap_append, List.flatMap_singleton, characters]

private theorem foldlM_extracted {before : List Fragment} (extracted : Extracted before extraction)
    (folded : fragments.foldlM Extraction.add extraction = .ok extraction') :
    Extracted (before ++ fragments) extraction' := by
  -- What is extracted says which fragments came before, so these grow as the run goes on.
  induction fragments generalizing before extraction with
  | nil =>
    obtain rfl := Except.ok.inj folded
    rwa [List.append_nil]
  | cons first rest ih =>
    rw [List.foldlM_cons] at folded
    obtain ⟨next, added, folded⟩ := bind_ok.mp folded
    rw [← List.singleton_append, ← List.append_assoc]
    apply ih ?_ folded
    cases first with
    | text letters => exact extracted_text extracted added
    | group spelling => exact extracted_group extracted added

/-- A run over all fragments takes out all of their groups. -/
theorem ofFragments_extracted (extracts : Extraction.ofFragments fragments = .ok extraction) :
    Extracted fragments extraction :=
  foldlM_extracted extracted_nothing extracts

private theorem foldlM_refused {violation : Violation}
    (folded : fragments.foldlM Extraction.add extraction = .error violation) :
    ∃ before spelling after, groups fragments = before ++ spelling :: after ∧
      (∀ earlier ∈ before, ∃ dice, earlier.dice = .ok dice) ∧ spelling.dice = .error violation := by
  induction fragments generalizing extraction with
  | nil => cases folded
  | cons first rest ih =>
    rw [List.foldlM_cons] at folded
    cases first with
    | text letters => exact ih folded
    | group spelling =>
      cases judged : spelling.dice with
      | error found =>
        rw [Extraction.add, judged] at folded
        obtain rfl : found = violation := Except.error.inj folded
        exact ⟨[], spelling, groups rest, rfl, by simp, judged⟩
      | ok dice =>
        rw [Extraction.add, judged] at folded
        obtain ⟨before, refused, after, same, earlier, failed⟩ := ih folded
        exact ⟨spelling :: before, refused, after, congrArg (spelling :: ·) same,
          List.forall_mem_cons.mpr ⟨⟨dice, judged⟩, earlier⟩, failed⟩

/-- A run stops at the first group whose numbers are refused. -/
theorem ofFragments_refused {violation : Violation} (refused : Extraction.ofFragments fragments = .error violation) :
    ∃ before spelling after, groups fragments = before ++ spelling :: after ∧
      (∀ earlier ∈ before, ∃ dice, earlier.dice = .ok dice) ∧ spelling.dice = .error violation :=
  foldlM_refused refused

def groupTexts (source : String) : List String :=
  (groups (Fragment.split source.toList)).map fun spelling => String.ofList (written spelling)

def places (source : String) : List Span :=
  spans 0 (Fragment.split source.toList)

/-- The groups of a source lie apart and in order, and all of its letters d are theirs. -/
structure Scanned (source : String) : Prop where
  whole : (Fragment.split source.toList).flatMap characters = source.toList
  ordered : (places source).Pairwise fun first second => first.stop ≤ second.start
  placed : List.Forall₂ (fun span group => source.toList.extract span.start span.stop = group.toList)
    (places source) (groupTexts source)
  single : ∀ group ∈ groupTexts source, group.toList.count 'd' = 1
  between : ∀ letters, .text letters ∈ Fragment.split source.toList → 'd' ∉ letters
  reaching : (Fragment.split source.toList).IsChain Follows
  counted : (groupTexts source).length = source.toList.count 'd'

/-- A compiled pattern holds the dice of all groups, and its template has a placeholder for each in its place. -/
structure Compiled (pattern : Pattern) : Prop where
  dice : List.Forall₂ (fun group dice => Dice.ofText group = .ok dice) (groupTexts pattern.source) pattern.dice
  numbered : pattern.template.placeholders = List.range pattern.dice.length
  restored : pattern.template.fill (fun index => (groupTexts pattern.source)[index]?.getD "") = pattern.source

private theorem groups_numeric (source : String) : ∀ spelling ∈ groups (Fragment.split source.toList), Numeric spelling :=
  fun spelling member => (split_cuts source.toList).proper (.group spelling) (mem_groups.mp member)

theorem mem_groupTexts {source group : String} (member : group ∈ groupTexts source) :
    ∀ c ∈ group.toList, c.isDigit = true ∨ c ∈ ['d', 'l', 'h'] := by
  obtain ⟨spelling, found, rfl⟩ := List.mem_map.mp member
  rw [String.toList_ofList]
  exact mem_written (groups_numeric source spelling found)

theorem scanned (source : String) : Scanned source := by
  have cuts := split_cuts source.toList
  refine ⟨cuts.whole, spans_ordered _ _, ?_, ?_, fun letters member => (cuts.proper _ member).2, cuts.chain, ?_⟩
  · have hold := spans_hold [] (Fragment.split source.toList)
    rw [List.nil_append, cuts.whole] at hold
    refine List.forall₂_map_right_iff.mpr (hold.imp fun span spelling same => ?_)
    rw [same, String.toList_ofList]
  · simp only [groupTexts, List.forall_mem_map, String.toList_ofList]
    exact fun spelling member => count_written (groups_numeric source spelling member)
  · rw [groupTexts, List.length_map, count_groups cuts.proper, cuts.whole]

section Compiling
variable {pattern : Pattern}

theorem compiled_of_ok (compiles : pattern.compile.value.1 = .ok ()) :
    pattern.compile.value.2.source = pattern.source ∧ Compiled pattern.compile.value.2 := by
  cases extracts : pattern.extract with
  | error violation =>
    rw [compile_error extracts] at compiles
    contradiction
  | ok extraction =>
    have extracted := ofFragments_extracted extracts
    rw [compile_ok extracts]
    refine ⟨rfl, ?_, extracted.numbered, ?_⟩
    · have judged := (List.forall₂_and_left _ _).mpr ⟨groups_numeric pattern.source, extracted.dice⟩
      refine List.forall₂_map_left_iff.mpr (judged.imp fun spelling dice ⟨numeric, answer⟩ => ?_)
      rw [ofText_written numeric, answer]
      rfl
    · have restored := extracted.restored (fun index => (groupTexts pattern.source)[index]?.getD "")
        fun index spelling found => by simp [groupTexts, found]
      rw [(split_cuts _).whole, String.ofList_toList] at restored
      exact restored

theorem refused_of_error {error : Error} (refused : pattern.compile.value.1 = .error error) :
    ∃ before group after, groupTexts pattern.source = before ++ group :: after ∧
      (∀ earlier ∈ before, ∃ dice, Dice.ofText earlier = .ok dice) ∧ Dice.ofText group = .error error := by
  cases extracts : pattern.extract with
  | ok extraction =>
    rw [compile_ok extracts] at refused
    contradiction
  | error violation =>
    rw [compile_error extracts] at refused
    obtain rfl := Except.error.inj refused
    obtain ⟨before, spelling, after, same, earlier, failed⟩ := ofFragments_refused extracts
    have numeric := groups_numeric pattern.source
    rw [same, List.forall_mem_append, List.forall_mem_cons] at numeric
    refine ⟨_, _, _, by rw [groupTexts, same, List.map_append, List.map_cons], ?_, ?_⟩
    · simp only [List.forall_mem_map]
      intro spelling member
      obtain ⟨dice, judged⟩ := earlier spelling member
      exact ⟨dice, by rw [ofText_written (numeric.1 spelling member), judged]; rfl⟩
    · rw [ofText_written numeric.2.1, failed]
      rfl

/-- Only a group that is refused by itself keeps a pattern from compiling. -/
theorem compile_ok_iff : pattern.compile.value.1 = .ok () ↔
    ∀ group ∈ groupTexts pattern.source, ∃ dice, Dice.ofText group = .ok dice := by
  constructor
  · intro compiles group member
    obtain ⟨same, compiled⟩ := compiled_of_ok compiles
    have each := compiled.dice.imp fun group dice judged => And.intro (Exists.intro dice judged) judged
    exact ((List.forall₂_and_left _ _).mp each).1 group (same ▸ member)
  · intro all
    cases answer : pattern.compile.value.1 with
    | ok => rfl
    | error error =>
      obtain ⟨before, group, after, same, -, refused⟩ := refused_of_error answer
      obtain ⟨dice, judged⟩ := all group (by simp [same])
      rw [refused] at judged
      cases judged

private theorem ofText_filled {text : String} (filled : normalize text ≠ "") :
    Pattern.ofText text = .ok { source := normalize text } :=
  ofText_ok.mpr ⟨filled, rfl⟩

/-- No group is lost, doubled or made up, and compiling reads each as it would be read alone. -/
theorem compile_extracts {text : String} (filled : normalize text ≠ "") :
    ∃ pattern, Pattern.ofText text = .ok pattern ∧ pattern.source = normalize text ∧ Scanned pattern.source ∧
      (pattern.compile.value.1 = .ok () ↔ ∀ group ∈ groupTexts pattern.source, ∃ dice, Dice.ofText group = .ok dice) ∧
      (pattern.compile.value.1 = .ok () →
        pattern.compile.value.2.source = pattern.source ∧ Compiled pattern.compile.value.2) ∧
      ∀ error, pattern.compile.value.1 = .error error →
        ∃ before group after, groupTexts pattern.source = before ++ group :: after ∧
          (∀ earlier ∈ before, ∃ dice, Dice.ofText earlier = .ok dice) ∧ Dice.ofText group = .error error :=
  ⟨_, ofText_filled filled, rfl, scanned _, compile_ok_iff, compiled_of_ok, fun _ => refused_of_error⟩

theorem compile_extracts_neighbours : normalize "2D6L1d4 + d%" ≠ "" ∧
    ∃ pattern, Pattern.ofText "2D6L1d4 + d%" = .ok pattern ∧ groupTexts pattern.source = ["2d6l1", "d4", "d100"] ∧
      Scanned pattern.source ∧ Compiled pattern.compile.value.2 := by
  have source : normalize "2D6L1d4 + d%" = "2d6l1d4+d100" := by decide +kernel
  have groups : groupTexts "2d6l1d4+d100" = ["2d6l1", "d4", "d100"] := by decide +kernel
  have filled : normalize "2D6L1d4 + d%" ≠ "" := by simp [source]
  obtain ⟨pattern, made, same, apart, compiles, compiled, -⟩ := compile_extracts filled
  have texts := same.trans source ▸ groups
  refine ⟨filled, pattern, made, texts, apart, (compiled (compiles.mpr ?_)).2⟩
  have dice : ∀ group ∈ ["2d6l1", "d4", "d100"], (Dice.ofText group).isOk = true := by decide +kernel
  intro group member
  exact exists_of_isOk _ (dice group (texts ▸ member))

end Compiling

end DiceNotation.Proofs.Extraction

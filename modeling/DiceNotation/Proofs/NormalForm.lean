import DiceNotation.Proofs.PatternText
import DiceNotation.Proofs.TextCuts
import Mathlib.Data.List.Infix
import Mathlib.Logic.Relation

/-! The normal form. It is its own normal form, and neither blanks nor the case of a letter leave a trace in it. Two facts
are used of the lower case of all characters: that it is its own lower case, and that only blanks have blanks in it. -/

namespace DiceNotation.Proofs.NormalForm
open Text LowerCase PatternText PatternCalls

variable {c : Char} {text other : List Char}

section Idempotence

/-- A character that is in normal form by itself, and stays there. -/
def Settled (c : Char) : Prop := Solid c ∧ lowercase c = [c]

theorem squeeze_settled (text : List Char) : ∀ c ∈ squeeze text, Settled c := by
  intro c member
  refine ⟨squeeze_solid text c member, ?_⟩
  obtain ⟨source, -, lowered⟩ := List.mem_flatMap.mp member
  exact lowercase_lowercase lowered

theorem squeeze_of_settled (settled : ∀ c ∈ text, Settled c) : squeeze text = text := by
  have solid : (text.filter fun c => !isBlank c) = text := by
    apply List.filter_eq_self.mpr
    intro c member
    rw [(settled c member).1]
    rfl
  rw [squeeze, solid, List.flatMap_congr fun c member => (settled c member).2, List.flatMap_singleton']

theorem expandPercent_settled (settled : ∀ c ∈ text, Settled c) : ∀ c ∈ expandPercent text, Settled c := by
  intro c member
  obtain inside | letter := mem_expandPercent member
  · exact settled c inside
  · simp only [List.mem_cons, List.not_mem_nil, or_false] at letter
    rcases letter with rfl | rfl | rfl <;> exact ⟨by decide, by decide⟩

def Unsigned (text : List Char) : Prop := ¬ ['d', '%'] <:+: text

theorem unsigned_cons : Unsigned (c :: text) ↔ Unsigned text ∧ ¬ (c = 'd' ∧ ['%'] <+: text) := by
  simp only [Unsigned, List.infix_cons_iff, List.cons_prefix_cons, not_or, eq_comm (a := c)]
  exact and_comm

/-- A text that starts with a sign still starts with it when the dice behind are spelled out, and no other text does. -/
theorem sign_expandPercent : ['%'] <+: expandPercent text ↔ ['%'] <+: text := by
  fun_cases expandPercent text with
  | case1 => rfl
  | case2 rest => simp [List.cons_prefix_cons]
  | case3 first rest => simp [List.cons_prefix_cons]

theorem expandPercent_unsigned (text : List Char) : Unsigned (expandPercent text) := by
  fun_induction expandPercent text with
  | case1 => simp [Unsigned]
  | case2 rest ih =>
    refine unsigned_cons.mpr ⟨unsigned_cons.mpr ⟨unsigned_cons.mpr ⟨unsigned_cons.mpr ⟨ih, ?_⟩, ?_⟩, ?_⟩, ?_⟩
    all_goals simp
  | case3 first rest plain ih =>
    refine unsigned_cons.mpr ⟨ih, ?_⟩
    rintro ⟨rfl, signed⟩
    obtain ⟨others, rfl⟩ := sign_expandPercent.mp signed
    exact plain others rfl rfl

theorem expandPercent_of_unsigned (unsigned : Unsigned text) : expandPercent text = text := by
  fun_induction expandPercent text with
  | case1 => rfl
  | case2 rest => exact absurd ⟨rfl, rest, rfl⟩ (unsigned_cons.mp unsigned).2
  | case3 first rest plain ih => rw [ih (unsigned_cons.mp unsigned).1]

theorem normalize_unsigned (text : String) : Unsigned (normalize text).toList := by
  rw [normalize, String.toList_ofList]
  exact expandPercent_unsigned _

theorem normalize_normalize (text : String) : normalize (normalize text) = normalize text := by
  have settled := expandPercent_settled (squeeze_settled text.toList)
  have unsigned := expandPercent_unsigned (squeeze text.toList)
  rw [normalize, normalize, String.toList_ofList, squeeze_of_settled settled, expandPercent_of_unsigned unsigned]

end Idempotence

section Edits

def switchCase (c : Char) : Char := if c.isUpper then c.toLower else c.toUpper

/-- A blank put in or taken out anywhere, or the case of one letter of the ASCII alphabet switched. -/
inductive Edit : List Char → List Char → Prop where
  | insert (front back : List Char) (blank : Char) (isBlank : isBlank blank = true) : Edit (front ++ back) (front ++ blank :: back)
  | delete (front back : List Char) (blank : Char) (isBlank : isBlank blank = true) : Edit (front ++ blank :: back) (front ++ back)
  | switch (front back : List Char) (letter : Char) (isAlpha : letter.isAlpha = true) :
    Edit (front ++ letter :: back) (front ++ switchCase letter :: back)

def Variant (text other : String) : Prop := Relation.ReflTransGen Edit text.toList other.toList

theorem squeeze_blank (blank : isBlank c = true) : squeeze (c :: text) = squeeze text := by
  rw [squeeze, List.filter_cons_of_neg (by simpa using blank), squeeze]

private theorem switch_codes : ∀ code < 123, (Char.ofNat code).isAlpha = true →
    squeeze [switchCase (Char.ofNat code)] = squeeze [Char.ofNat code] := by
  decide +kernel

theorem squeeze_switchCase (letter : c.isAlpha = true) : squeeze (switchCase c :: text) = squeeze (c :: text) := by
  have range : c.toNat < 123 := by
    simp only [TextCuts.isAlpha_eq, Bool.or_eq_true, Bool.and_eq_true, decide_eq_true_eq, UInt32.le_iff_toNat_le] at letter
    change c.val.toNat < 123
    rcases letter with ⟨-, upper⟩ | ⟨-, lower⟩
    · exact Nat.lt_of_le_of_lt upper (by decide)
    · exact Nat.lt_of_le_of_lt lower (by decide)
  have same := switch_codes c.toNat range (by rwa [Char.ofNat_toNat])
  rw [Char.ofNat_toNat] at same
  rw [← List.singleton_append, squeeze_append, same, ← squeeze_append, List.singleton_append]

theorem Edit.squeeze_eq (edit : Edit text other) : squeeze other = squeeze text := by
  cases edit with
  | insert front back blank isBlank => rw [squeeze_append, squeeze_blank isBlank, ← squeeze_append]
  | delete front back blank isBlank => rw [squeeze_append, squeeze_append, squeeze_blank isBlank]
  | switch front back letter isAlpha => rw [squeeze_append, squeeze_switchCase isAlpha, ← squeeze_append]

theorem squeeze_edits (edits : Relation.ReflTransGen Edit text other) : squeeze other = squeeze text := by
  induction edits with
  | refl => rfl
  | tail _ edit ih => exact edit.squeeze_eq.trans ih

theorem Variant.normalize_eq {text other : String} (variant : Variant text other) : normalize other = normalize text := by
  rw [normalize, squeeze_edits variant, ← normalize]

/-- A text gives a pattern exactly where something of it is left, and that pattern holds nothing else of the text. -/
theorem Variant.ofText_ok {text other : String} {pattern : Pattern} (variant : Variant text other) :
    Pattern.ofText other = .ok pattern ↔ Pattern.ofText text = .ok pattern := by
  rw [PatternCalls.ofText_ok, PatternCalls.ofText_ok, variant.normalize_eq]

/-- What a roll of a text gives is what the pattern of the text gives. -/
theorem rollText_ok_iff {text : String} {words : Words} {outcome : Outcome} :
    (rollText text words).value.1 = .ok outcome ↔
      ∃ pattern, Pattern.ofText text = .ok pattern ∧ (pattern.roll words).value.1.1 = .ok outcome := by
  cases made : Pattern.ofText text with
  | error error =>
    rw [rollText, made]
    constructor
    · intro rolled
      cases rolled
    · rintro ⟨pattern, made, -⟩
      cases made
  | ok pattern => simp [rollText_made made]

theorem Variant.rollText_ok {text other : String} {words : Words} {outcome : Outcome} (variant : Variant text other) :
    (rollText other words).value.1 = .ok outcome ↔ (rollText text words).value.1 = .ok outcome := by
  simp only [rollText_ok_iff, variant.ofText_ok]

end Edits

/-- The normal form is canonical. Texts that differ in blanks and in the case of letters alone are read as the same dice, make
the same pattern, which compiles to what it compiles to, and roll to the same outcomes. -/
theorem normalize_canonical (text : String) :
    (∀ c ∈ (normalize text).toList, isBlank c = false) ∧ ¬ ['d', '%'] <:+: (normalize text).toList ∧
      normalize (normalize text) = normalize text ∧
      ∀ other, Variant text other → normalize other = normalize text ∧ Dice.ofText other = Dice.ofText text ∧
        (∀ pattern, Pattern.ofText other = .ok pattern ↔ Pattern.ofText text = .ok pattern) ∧
        ∀ words outcome, (rollText other words).value.1 = .ok outcome ↔ (rollText text words).value.1 = .ok outcome := by
  refine ⟨normalize_solid text, normalize_unsigned text, normalize_normalize text, ?_⟩
  intro other variant
  refine ⟨variant.normalize_eq, ?_, fun _ => variant.ofText_ok, fun _ _ => variant.rollText_ok⟩
  rw [Dice.ofText, Dice.ofText, variant.normalize_eq]

/-- A blank inside the sign of a percentile die and a capital letter change nothing. -/
theorem normalize_canonical_percentile :
    Variant "2d%" "2D %" ∧ normalize "2D %" = normalize "2d%" ∧ Dice.ofText "2D %" = Dice.ofText "2d%" := by
  have variant : Variant "2d%" "2D %" :=
    (Relation.ReflTransGen.single (.switch ['2'] ['%'] 'd' (by decide))).tail
      (.insert ['2', 'D'] ['%'] ' ' (by decide))
  obtain ⟨-, -, -, same⟩ := normalize_canonical "2d%"
  obtain ⟨normal, dice, -, -⟩ := same "2D %" variant
  exact ⟨variant, normal, dice⟩

end DiceNotation.Proofs.NormalForm

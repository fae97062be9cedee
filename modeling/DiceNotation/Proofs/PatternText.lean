import DiceNotation.Proofs.LowerCase
import DiceNotation.Proofs.PatternCalls

/-! The text of a pattern's template. It comes from the pattern's normal form, in which no blank is left,
and a roll that succeeds is the outcome of that template. -/

namespace DiceNotation.Proofs.PatternText
open Text LowerCase Runs PatternCalls
open Template (Piece)

def Solid (c : Char) : Prop := isBlank c = false

instance (c : Char) : Decidable (Solid c) := inferInstanceAs (Decidable (_ = _))

private theorem runs_solid : ∀ run ∈ caseRuns, ∀ blanks ∈ blankRanges, high run < blanks.1 ∨ blanks.2 < low run := by
  decide +kernel

private theorem ofNat_solid {n : Nat} (outside : ∀ blanks ∈ blankRanges, n < blanks.1 ∨ blanks.2 < n) :
    Solid (Char.ofNat n) := by
  by_cases valid : n.isValidChar
  · simp only [Solid, isBlank, List.any_eq_false, Bool.and_eq_true, decide_eq_true_eq, code_ofNat valid]
    intro blanks member
    have := outside blanks member
    omega
  · rw [Char.ofNat, dif_neg valid]
    decide

theorem lowerChar_solid {c : Char} (solid : Solid c) : Solid (lowerChar c) := by
  obtain same | ⟨run, member, code, -, above, below, image⟩ := lowerChar_cases c
  · rwa [same]
  · rw [image]
    apply ofNat_solid
    intro blanks blank
    have apart := runs_solid run member blanks blank
    omega

theorem squeeze_solid (text : List Char) : ∀ c ∈ squeeze text, Solid c := by
  intro c member
  obtain ⟨source, kept, lowered⟩ := List.mem_flatMap.mp member
  have solid : Solid source := by simpa [Solid] using (List.mem_filter.mp kept).2
  rw [lowercase] at lowered
  split at lowered
  next =>
    simp only [List.mem_cons, List.not_mem_nil, or_false] at lowered
    rcases lowered with rfl | rfl <;> decide
  next =>
    rw [List.mem_singleton.mp lowered]
    exact lowerChar_solid solid

theorem squeeze_append (front back : List Char) : squeeze (front ++ back) = squeeze front ++ squeeze back := by
  rw [squeeze, List.filter_append, List.flatMap_append, squeeze, squeeze]

/-- Spelling signs out brings in no other characters than those of d100. -/
theorem mem_expandPercent {text : List Char} {c : Char} (member : c ∈ expandPercent text) : c ∈ text ∨ c ∈ ['d', '1', '0'] := by
  fun_induction expandPercent text with
  | case1 => exact .inl member
  | case2 rest ih =>
    simp only [List.mem_cons] at member
    rcases member with rfl | rfl | rfl | rfl | behind
    · simp
    · simp
    · simp
    · simp
    · exact (ih behind).imp_left fun inside => by simp [inside]
  | case3 first rest _ ih =>
    rcases List.mem_cons.mp member with rfl | behind
    · simp
    · exact (ih behind).imp_left (List.mem_cons_of_mem first)

theorem expandPercent_solid {text : List Char} (solid : ∀ c ∈ text, Solid c) : ∀ c ∈ expandPercent text, Solid c := by
  have letters : ∀ c ∈ ['d', '1', '0'], Solid c := by
    simp only [List.forall_mem_cons]
    exact ⟨by decide, by decide, by decide, by simp⟩
  exact fun c member => (mem_expandPercent member).elim (solid c) (letters c)

theorem normalize_solid (text : String) : ∀ c ∈ (normalize text).toList, Solid c := by
  rw [normalize, String.toList_ofList]
  exact expandPercent_solid (squeeze_solid _)

section Letters
variable {P : Char → Prop}

def Lettered (P : Char → Prop) (template : Template) : Prop :=
  ∀ letters, .text letters ∈ template.pieces → ∀ c ∈ letters.toList, P c

def FragmentsLettered (P : Char → Prop) (fragments : List Fragment) : Prop :=
  ∀ letters, .text letters ∈ fragments → ∀ c ∈ letters, P c

private theorem readDrop_suffix (mark : Char) (text : List Char) : (Dice.Spelling.readDrop mark text).2 <:+ text := by
  fun_cases Dice.Spelling.readDrop mark text with
  | case1 => exact List.suffix_rfl
  | case2 => exact (List.dropWhile_suffix _).trans (List.suffix_cons _ _)
  | case3 => exact List.suffix_rfl

private theorem read?_suffix {text rest : List Char} {spelling : Dice.Spelling}
    (found : Dice.Spelling.read? text = some (spelling, rest)) : rest <:+ text := by
  rw [Dice.Spelling.read?] at found
  split at found
  next afterLetter remaining =>
    simp only [Option.some.injEq, Prod.mk.injEq] at found
    obtain ⟨-, rfl⟩ := found
    have letter : afterLetter <:+ text := (List.suffix_cons _ _).trans (remaining ▸ List.dropWhile_suffix _)
    exact (readDrop_suffix _ _).trans ((readDrop_suffix _ _).trans ((List.dropWhile_suffix _).trans letter))
  next => contradiction

private theorem consText_lettered {c : Char} {fragments : List Fragment} (here : P c)
    (lettered : FragmentsLettered P fragments) :
    FragmentsLettered P (Fragment.consText c fragments) := by
  have added : FragmentsLettered P (.text [c] :: fragments) := by
    intro letters member
    rcases List.mem_cons.mp member with same | member
    · obtain rfl := Fragment.text.inj same
      simpa using here
    · exact lettered letters member
  cases fragments with
  | nil => exact added
  | cons first rest =>
    cases first with
    | group spelling => exact added
    | text characters =>
      intro letters member
      rcases List.mem_cons.mp member with same | member
      · obtain rfl := Fragment.text.inj same
        exact List.forall_mem_cons.mpr ⟨here, lettered characters (by simp)⟩
      · exact lettered letters (by simp [member])

theorem split_lettered {text : List Char} (all : ∀ c ∈ text, P c) : FragmentsLettered P (Fragment.split text) := by
  fun_induction Fragment.split text with
  | case1 text spelling rest found ih =>
    have behind := ih fun c member => all c ((read?_suffix found).mem member)
    intro letters member
    exact behind letters (by simpa using member)
  | case2 => simp [FragmentsLettered]
  | case3 c rest found ih =>
    obtain ⟨here, there⟩ := List.forall_mem_cons.mp all
    exact consText_lettered here (ih there)

private theorem concat_lettered {pieces : List Piece} {text : String}
    (lettered : ∀ letters, .text letters ∈ pieces → ∀ c ∈ letters.toList, P c) (all : ∀ c ∈ text.toList, P c) :
    ∀ letters, .text letters ∈ pieces ++ [.text text] → ∀ c ∈ letters.toList, P c := by
  intro letters member
  rcases List.mem_append.mp member with member | member
  · exact lettered letters member
  · obtain rfl : letters = text := by simpa using member
    exact all

theorem pushText_lettered {template : Template} {text : String} (lettered : Lettered P template)
    (all : ∀ c ∈ text.toList, P c) :
    Lettered P (template.pushText text) := by
  rw [Template.pushText]
  split
  next => exact lettered
  next =>
    split
    next characters last =>
      apply concat_lettered
      · exact fun letters member => lettered letters ((List.dropLast_sublist _).mem member)
      · intro c member
        rw [String.toList_append, List.mem_append] at member
        rcases member with before | behind
        · exact lettered characters (List.mem_of_getLast? last) c before
        · exact all c behind
    next => exact concat_lettered lettered all
    next => exact concat_lettered lettered all

theorem pushPlaceholder_lettered {template : Template} {index : Nat} (lettered : Lettered P template) :
    Lettered P (template.pushPlaceholder index) := by
  intro letters member
  apply lettered letters
  simpa [Template.pushPlaceholder] using member

private theorem add_lettered {extraction extraction' : Extraction} {fragment : Fragment}
    (lettered : Lettered P extraction.template)
    (all : ∀ letters, fragment = .text letters → ∀ c ∈ letters, P c) (added : extraction.add fragment = .ok extraction') :
    Lettered P extraction'.template := by
  cases fragment with
  | text letters =>
    obtain rfl := Except.ok.inj added
    exact pushText_lettered lettered (by simpa using all letters rfl)
  | group spelling =>
    rw [Extraction.add] at added
    obtain ⟨dice, -, added⟩ := bind_ok.mp added
    obtain rfl := Except.ok.inj added
    exact pushPlaceholder_lettered lettered

private theorem foldlM_lettered {fragments : List Fragment} {start extraction : Extraction}
    (lettered : Lettered P start.template)
    (all : FragmentsLettered P fragments) (folded : fragments.foldlM Extraction.add start = .ok extraction) :
    Lettered P extraction.template := by
  induction fragments generalizing start with
  | nil =>
    obtain rfl := Except.ok.inj folded
    exact lettered
  | cons first rest ih =>
    rw [List.foldlM_cons] at folded
    obtain ⟨next, added, folded⟩ := bind_ok.mp folded
    have lettered' : Lettered P next.template := by
      apply add_lettered lettered ?_ added
      rintro letters rfl
      exact all letters (by simp)
    exact ih lettered' (fun letters member => all letters (List.mem_cons_of_mem _ member)) folded

theorem ofFragments_lettered {fragments : List Fragment} {extraction : Extraction} (all : FragmentsLettered P fragments)
    (extracted : Extraction.ofFragments fragments = .ok extraction) : Lettered P extraction.template :=
  foldlM_lettered (by simp [Lettered]) all extracted

end Letters

theorem ofThrows_ok {template : Template} {throws : List Throw} {outcome : Outcome}
    (settled : Outcome.ofThrows template throws = .ok outcome) :
    outcome.template = template ∧ outcome.throws = throws ∧ Outcome.totalOf template throws = .ok outcome.total := by
  rw [Outcome.ofThrows] at settled
  split at settled
  next total found =>
    obtain rfl := Except.ok.inj settled
    exact ⟨rfl, rfl, found⟩
  next => contradiction

/-- A total comes of a text that is an expression, evaluated and cut to an integer. -/
theorem totalOf_ok {template : Template} {throws : List Throw} {total : Int64}
    (settled : Outcome.totalOf template throws = .ok total) :
    ∃ text tree value, template.render (Outcome.boundTotal throws) = .ok text ∧ Expression.ofText text = .ok tree ∧
      tree.evaluate = .ok value ∧ value.toInteger = .ok total := by
  rw [Outcome.totalOf] at settled
  obtain ⟨text, rendered, settled⟩ := bind_ok.mp settled
  obtain ⟨value, evaluated, settled⟩ := bind_ok.mp settled
  rw [evaluate] at evaluated
  obtain ⟨tree, read, evaluated⟩ := bind_ok.mp evaluated
  refine ⟨text, tree, value, rendered, read, ?_, ?_⟩
  · split at evaluated
    next found valued => rw [valued, Except.ok.inj evaluated]
    next => contradiction
  · split at settled
    next found cut => rw [cut, Except.ok.inj settled]
    next => contradiction

private theorem roll_ok {source : String} {words : Words} {outcome : Outcome}
    (rolled : (({ source } : Pattern).roll words).value.1.1 = .ok outcome) :
    ∃ extraction throws, Extraction.ofFragments (Fragment.split source.toList) = .ok extraction ∧
      Outcome.ofThrows extraction.template throws = .ok outcome := by
  have compiles : ({ source } : Pattern).ensureCompiled.value = _ := ensureCompiled_none rfl
  cases extracts : Extraction.ofFragments (Fragment.split source.toList) with
  | error violation =>
    rw [roll_refused (compiles.trans (compile_error extracts))] at rolled
    cases rolled
  | ok extraction =>
    rw [roll_ready (compiles.trans (compile_ok extracts))] at rolled
    exact ⟨extraction, _, rfl, rolled⟩

/-- A roll that succeeds is the outcome of its own throws and of a template without blanks. -/
theorem rollText_ok {text : String} {words : Words} {outcome : Outcome}
    (rolled : (rollText text words).value.1 = .ok outcome) :
    Lettered Solid outcome.template ∧ Outcome.ofThrows outcome.template outcome.throws = .ok outcome := by
  rw [rollText] at rolled
  cases made : Pattern.ofText text with
  | error error =>
    rw [made] at rolled
    cases rolled
  | ok pattern =>
    rw [made, value_bind] at rolled
    obtain ⟨-, rfl⟩ := ofText_ok.mp made
    obtain ⟨extraction, throws, extracted, settled⟩ := roll_ok rolled
    obtain ⟨sameTemplate, sameThrows, -⟩ := ofThrows_ok settled
    rw [sameTemplate, sameThrows]
    exact ⟨ofFragments_lettered (split_lettered (normalize_solid text)) extracted, settled⟩

end DiceNotation.Proofs.PatternText

import DiceNotation.Proofs.TokenSequence

/-! Where a text may be cut. The tokens of two texts side by side are those of the one and then those of
the other, unless a token of the first could go on into the second. -/

namespace DiceNotation.Proofs.TextCuts
open Token TokenSequence
open Expression (Fault)

variable {front back text rest : List Char}

def isWordPart (c : Char) : Bool := isNamePart c || c == '.'

/-- No number and no name is still open at the end of a text. -/
def Closed (text : List Char) : Prop := ∀ last ∈ text.getLast?, isWordPart last = false

theorem Closed.suffix (closed : Closed text) (part : rest <:+ text) : Closed rest := by
  obtain ⟨before, rfl⟩ := part
  intro last member
  exact closed last (by rw [List.getLast?_append, Option.mem_def.mp member]; rfl)

theorem digit_word {c : Char} (digit : c.isDigit = true) : isWordPart c = true := by
  simp [isWordPart, isNamePart, Char.isAlphanum, digit]

theorem name_word {c : Char} (name : isNamePart c = true) : isWordPart c = true := by
  simp [isWordPart, name]

private theorem run_cut {p : Char → Bool} (back : List Char) (inside : ∀ {c}, p c = true → isWordPart c = true)
    (closed : Closed front)
    (some : front ≠ []) : front.dropWhile p ≠ [] ∧ (front ++ back).takeWhile p = front.takeWhile p ∧
      (front ++ back).dropWhile p = front.dropWhile p ++ back := by
  have stops : front.dropWhile p ≠ [] := by
    intro all
    have last := List.dropWhile_eq_nil_iff.mp all _ (List.getLast_mem some)
    have word := closed _ (List.getLast?_eq_some_getLast some)
    rw [inside last] at word
    contradiction
  have shorter : (front.takeWhile p).length ≠ front.length := by
    intro same
    have whole : front.takeWhile p ++ front.dropWhile p = front := List.takeWhile_append_dropWhile
    have lengths := congrArg List.length whole
    rw [List.length_append, same] at lengths
    exact stops (List.length_eq_zero_iff.mp (by omega))
  refine ⟨stops, ?_, ?_⟩
  · rw [List.takeWhile_append, if_neg shorter]
  · rw [List.dropWhile_append, if_neg (by simpa using stops)]

private theorem readNumber_cut (closed : Closed front) (some : front ≠ []) :
    readNumber (front ++ back) = ((readNumber front).1, (readNumber front).2 ++ back) := by
  obtain ⟨stops, digits, remaining⟩ := run_cut back digit_word closed some
  have part : front.dropWhile Char.isDigit <:+ front := List.dropWhile_suffix _
  rw [readNumber, readNumber, digits, remaining]
  cases after : front.dropWhile Char.isDigit with
  | nil => contradiction
  | cons c others =>
    by_cases point : c = '.'
    · subst point
      have closed' : Closed others := closed.suffix ((List.suffix_cons '.' others).trans (after ▸ part))
      have more : others ≠ [] := by
        rintro rfl
        exact absurd (closed.suffix (after ▸ part) '.' rfl) (by decide)
      obtain ⟨-, places, remaining'⟩ := run_cut back digit_word closed' more
      simp only [List.cons_append, places, remaining']
    · simp [point]

private theorem readName_cut (closed : Closed front) (some : front ≠ []) :
    readName (front ++ back) = ((readName front).1, (readName front).2 ++ back) := by
  obtain ⟨-, letters, remaining⟩ := run_cut back name_word closed some
  rw [readName, readName, letters, remaining]

private theorem readSolid_cut (closed : Closed front) (some : front ≠ []) (begins : ∀ first ∈ back.head?, first ≠ '/') :
    readSolid (front ++ back) = ((readSolid front).1, (readSolid front).2 ++ back) := by
  fun_cases readSolid front with
  | case1 => contradiction
  | case6 rest single =>
    cases rest with
    | nil => cases back <;> simp_all [readSolid]
    | cons second others => simp_all [readSolid]
  | case10 c rest _ _ _ _ _ _ _ _ number =>
    rw [← readNumber_cut closed some]
    simp_all [readSolid]
  | case11 c rest _ _ _ _ _ _ _ _ _ name =>
    rw [← readName_cut closed some]
    simp_all [readSolid]
  | case12 => simp_all [readSolid]
  | _ => simp [readSolid]

theorem readSolid_suffix (text : List Char) : (readSolid text).2 <:+ text := by
  have number (text : List Char) : (readNumber text).2 <:+ text := by
    have digits : text.dropWhile Char.isDigit <:+ text := List.dropWhile_suffix _
    rw [readNumber]
    split
    next afterPoint remaining =>
      have point : afterPoint <:+ text.dropWhile Char.isDigit := remaining ▸ List.suffix_cons _ _
      exact (List.dropWhile_suffix _).trans (point.trans digits)
    next => exact digits
  fun_cases readSolid text with
  | case5 rest => exact (List.suffix_cons _ _).trans (List.suffix_cons _ _)
  | case10 => exact number _
  | case11 => exact List.dropWhile_suffix _
  | case1 | case12 => exact List.suffix_rfl
  | _ => exact List.suffix_cons _ _

@[simp] theorem all_nil : all ([] : List Char) = .ok [] := all_end rfl

theorem all_minus (text : List Char) : all ('-' :: text) = (all text).map (.minus :: ·) := all_token rfl (by simp)

/-- What follows leading blanks decides. -/
theorem all_of_blank (blank : ∀ c ∈ front, Text.isBlank c = true) : all (front ++ back) = all back := by
  have same : Source.next (front ++ back) = Source.next back := by
    change readSolid ((front ++ back).dropWhile Text.isBlank) = readSolid (back.dropWhile Text.isBlank)
    rw [List.dropWhile_append_of_pos blank]
  rcases found : Source.next back with ⟨fault | token, rest⟩
  · rw [all_error found, all_error (same.trans found)]
  · by_cases ends : token = .eof
    · subst ends
      rw [all_end found, all_end (same.trans found)]
    · rw [all_token found ends, all_token (same.trans found) ends]

theorem all_append (closed : Closed front) (begins : ∀ first ∈ back.head?, first ≠ '/') :
    all (front ++ back) = (do return (← all front) ++ (← all back)) := by
  induction size : front.length using Nat.strong_induction_on generalizing front with
  | _ size ih =>
    by_cases blank : front.dropWhile Text.isBlank = []
    · have all_blank : ∀ c ∈ front, Text.isBlank c = true := by simpa using blank
      have ended : Source.next front = (.ok .eof, []) := congrArg readSolid blank
      rw [all_of_blank all_blank, all_end ended]
      cases all back <;> rfl
    · have closed' : Closed (front.dropWhile Text.isBlank) := closed.suffix (List.dropWhile_suffix _)
      have cut := readSolid_cut closed' blank begins
      have drop : (front ++ back).dropWhile Text.isBlank = front.dropWhile Text.isBlank ++ back := by
        rw [List.dropWhile_append, if_neg (by simpa using blank)]
      rcases found : readSolid (front.dropWhile Text.isBlank) with ⟨answer, rest⟩
      have next : Source.next front = (answer, rest) := found
      have next' : Source.next (front ++ back) = (answer, rest ++ back) := by
        change readSolid ((front ++ back).dropWhile Text.isBlank) = _
        rw [drop, cut, found]
      cases answer with
      | error fault =>
        rw [all_error next, all_error next']
        rfl
      | ok token =>
        have proper : token ≠ .eof := by
          rintro rfl
          exact blank (readSolid_end found).1
        have shorter : rest.length < front.length := LawfulSource.shorter next proper
        have part : rest <:+ front.dropWhile Text.isBlank := by
          simpa only [found] using readSolid_suffix (front.dropWhile Text.isBlank)
        rw [all_token next proper, all_token next' proper, ih rest.length (size ▸ shorter) (closed'.suffix part) rfl]
        cases all rest <;> cases all back <;> rfl

/-- A number or a name is read by its first character. -/
theorem readSolid_word {c : Char} (word : isWordPart c = true) :
    readSolid (c :: text) = if c.isDigit || c == '.' then readNumber (c :: text) else readName (c :: text) := by
  have proper : c ∉ ['+', '-', '*', '/', '(', ')', ','] := by
    intro member
    simp only [List.mem_cons, List.not_mem_nil, or_false] at member
    rcases member with rfl | rfl | rfl | rfl | rfl | rfl | rfl <;> exact absurd word (by decide)
  have start : (c.isDigit || c == '.') = false → isNameStart c = true := by
    simp only [isWordPart, isNamePart, Char.isAlphanum, isNameStart, Bool.or_eq_true, Bool.or_eq_false_iff] at word ⊢
    grind
  simp only [List.mem_cons, List.not_mem_nil, or_false, not_or] at proper
  rw [readSolid] <;> simp_all
  split <;> simp_all

theorem isAlpha_eq (c : Char) :
    c.isAlpha = (decide ('A'.val ≤ c.val ∧ c.val ≤ 'Z'.val) || decide ('a'.val ≤ c.val) && decide (c.val ≤ 'z'.val)) := rfl

theorem isBlank_of_word {c : Char} (word : isWordPart c = true) : Text.isBlank c = false := by
  have codes : c = '_' ∨ c = '.' ∨ 48 ≤ c.toNat ∧ c.toNat ≤ 122 := by
    simp only [isWordPart, isNamePart, Char.isAlphanum, isAlpha_eq, Char.isDigit, Bool.or_eq_true,
      Bool.and_eq_true, beq_iff_eq, decide_eq_true_eq, ge_iff_le, UInt32.le_iff_toNat_le, Char.reduceVal, UInt32.reduceToNat] at word
    simp only [Char.toNat]
    grind
  rcases codes with rfl | rfl | ⟨low, high⟩
  · decide
  · decide
  · simp only [Text.isBlank, Text.blankRanges, List.any_cons, List.any_nil, Bool.or_eq_false_iff, Bool.and_eq_false_iff,
      decide_eq_false_iff_not, and_true]
    omega

theorem next_digits {digits : List Char} (number : ∀ c ∈ digits, c.isDigit = true) (some : digits ≠ [])
    (begins : ∀ first ∈ back.head?, first.isDigit = false ∧ first ≠ '.') :
    Source.next (digits ++ back) = (ofDigits digits, back) := by
  obtain ⟨c, others, rfl⟩ := List.exists_cons_of_ne_nil some
  have digit : c.isDigit = true := number c (by simp)
  have solid : Text.isBlank c = false := isBlank_of_word (digit_word digit)
  have stops : back.takeWhile Char.isDigit = [] ∧ back.dropWhile Char.isDigit = back := by
    cases back with
    | nil => exact ⟨rfl, rfl⟩
    | cons first rest => simp [(begins first rfl).1]
  have whole : (c :: others ++ back).takeWhile Char.isDigit = c :: others := by
    rw [List.takeWhile_append_of_pos number, stops.1, List.append_nil]
  have remaining : (c :: others ++ back).dropWhile Char.isDigit = back := by
    rw [List.dropWhile_append_of_pos number, stops.2]
  change readSolid ((c :: others ++ back).dropWhile Text.isBlank) = _
  rw [List.cons_append, List.dropWhile_cons_of_neg (by simp [solid]), readSolid_word (digit_word digit),
    if_pos (by simp [digit]), ← List.cons_append, readNumber, whole, remaining]
  split
  next afterPoint => exact absurd rfl (begins '.' rfl).2
  next => rfl

end DiceNotation.Proofs.TextCuts

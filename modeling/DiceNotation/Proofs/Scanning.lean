import DiceNotation.Dice.Spelling
import DiceNotation.Proofs.Runs
import Mathlib.Data.List.Chain
import Mathlib.Data.List.TakeWhile

/-! How groups stand in a text. They are taken out of it without loss: what is left between them holds no
letter d, and each group reaches back over all digits before its letter. A group that is read again by itself
is the same group. -/

namespace DiceNotation.Proofs.Scanning
open Dice (Spelling)

variable {text rest letters : List Char} {fragments : List Fragment} {spelling : Spelling}

def dropCharacters (mark : Char) : Option (List Char) → List Char
  | none => []
  | some digits => mark :: digits

def written (spelling : Spelling) : List Char :=
  spelling.amount ++ 'd' :: (spelling.sides ++
    (dropCharacters 'l' spelling.lowest ++ dropCharacters 'h' spelling.highest))

def characters : Fragment → List Char
  | .text letters => letters
  | .group spelling => written spelling

def groups : List Fragment → List Spelling
  | [] => []
  | .text _ :: rest => groups rest
  | .group spelling :: rest => spelling :: groups rest

def Digits (digits : List Char) : Prop := ∀ c ∈ digits, c.isDigit = true

structure Numeric (spelling : Spelling) : Prop where
  amount : Digits spelling.amount
  sides : Digits spelling.sides
  lowest : ∀ digits ∈ spelling.lowest, Digits digits
  highest : ∀ digits ∈ spelling.highest, Digits digits

private theorem digits_takeWhile (text : List Char) : Digits (text.takeWhile Char.isDigit) :=
  fun _ member => List.mem_takeWhile_imp member

private theorem readDrop_reads (mark : Char) (text : List Char) :
    dropCharacters mark (Spelling.readDrop mark text).1 ++ (Spelling.readDrop mark text).2 = text ∧
      ∀ digits ∈ (Spelling.readDrop mark text).1, Digits digits := by
  fun_cases Spelling.readDrop mark text with
  | case1 => simp [dropCharacters]
  | case2 rest =>
    refine ⟨congrArg (mark :: ·) List.takeWhile_append_dropWhile, ?_⟩
    rintro digits ⟨⟩
    exact digits_takeWhile rest
  | case3 => simp [dropCharacters]

/-- Nothing is lost between a group and what follows it. -/
theorem read?_reads (found : Spelling.read? text = some (spelling, rest)) :
    written spelling ++ rest = text ∧ Numeric spelling := by
  rw [Spelling.read?] at found
  split at found
  next afterLetter remaining =>
    simp only [Option.some.injEq, Prod.mk.injEq] at found
    obtain ⟨rfl, rfl⟩ := found
    obtain ⟨lowest, lowestDigits⟩ := readDrop_reads 'l' (afterLetter.dropWhile Char.isDigit)
    obtain ⟨highest, highestDigits⟩ := readDrop_reads 'h' (Spelling.readDrop 'l' (afterLetter.dropWhile Char.isDigit)).2
    refine ⟨?_, digits_takeWhile text, digits_takeWhile afterLetter, lowestDigits, highestDigits⟩
    simp only [written, List.append_assoc, List.cons_append]
    rw [highest, lowest, List.takeWhile_append_dropWhile, ← remaining, List.takeWhile_append_dropWhile]
  next => contradiction

/-- The first group of a text begins where its first digits end in a d. -/
theorem read?_eq_none : Spelling.read? text = none ↔ ∀ rest, text.dropWhile Char.isDigit ≠ 'd' :: rest := by
  rw [Spelling.read?]
  split <;> simp_all

private theorem digits_dropWhile {digits : List Char} (numeric : Digits digits)
    (stops : ∀ c ∈ rest.head?, c.isDigit = false) :
    (digits ++ rest).takeWhile Char.isDigit = digits ∧ (digits ++ rest).dropWhile Char.isDigit = rest := by
  rw [List.takeWhile_append_of_pos numeric, List.dropWhile_append_of_pos numeric]
  cases rest with
  | nil => simp
  | cons c others => simp [stops c rfl]

private theorem readDrop_written {mark : Char} {drop : Option (List Char)} (numeric : ∀ digits ∈ drop, Digits digits)
    (stops : ∀ c ∈ rest.head?, c.isDigit = false ∧ c ≠ mark) :
    Spelling.readDrop mark (dropCharacters mark drop ++ rest) = (drop, rest) := by
  cases drop with
  | none =>
    cases rest with
    | nil => rfl
    | cons c others => exact if_neg (stops c rfl).2
  | some digits =>
    obtain ⟨taken, left⟩ := digits_dropWhile (numeric digits rfl) fun c first => (stops c first).1
    rw [dropCharacters, List.cons_append, Spelling.readDrop, if_pos rfl, taken, left]

private theorem head_dropCharacters {mark c : Char} {drop : Option (List Char)}
    (first : c ∈ (dropCharacters mark drop).head?) : c = mark := by
  cases drop with
  | none => contradiction
  | some digits => exact (Option.some.inj first).symm

/-- A group by itself is read as that group, to its end. -/
theorem read?_written (numeric : Numeric spelling) : Spelling.read? (written spelling) = some (spelling, []) := by
  have highestStops : ∀ c ∈ (dropCharacters 'h' spelling.highest).head?, c.isDigit = false ∧ c ≠ 'l' := by
    intro c first
    rw [head_dropCharacters first]
    decide
  have lowestStops : ∀ c ∈ (dropCharacters 'l' spelling.lowest ++ dropCharacters 'h' spelling.highest).head?,
      c.isDigit = false := by
    intro c first
    rw [List.head?_append, Option.mem_def, Option.or_eq_some_iff] at first
    rcases first with here | ⟨-, there⟩
    · rw [head_dropCharacters here]
      decide
    · exact (highestStops c there).1
  have readLowest := readDrop_written numeric.lowest highestStops
  have readHighest : Spelling.readDrop 'h' (dropCharacters 'h' spelling.highest) = (spelling.highest, []) := by
    have whole : Spelling.readDrop 'h' (dropCharacters 'h' spelling.highest ++ []) = (spelling.highest, []) :=
      readDrop_written numeric.highest (by simp)
    rwa [List.append_nil] at whole
  obtain ⟨takenSides, leftSides⟩ := digits_dropWhile numeric.sides lowestStops
  have letterStops : ∀ c ∈ ('d' :: (spelling.sides ++ (dropCharacters 'l' spelling.lowest ++
      dropCharacters 'h' spelling.highest))).head?, c.isDigit = false := by
    rintro c ⟨⟩
    decide
  obtain ⟨takenAmount, leftAmount⟩ := digits_dropWhile numeric.amount letterStops
  rw [written, Spelling.read?, leftAmount, takenAmount]
  simp only [takenSides, leftSides, readLowest, readHighest]

/-- A text that is one group is nothing but this group. -/
theorem split_written (numeric : Numeric spelling) : Fragment.split (written spelling) = [.group spelling] := by
  rw [Fragment.split]
  split
  next found rest reads =>
    rw [read?_written numeric] at reads
    cases reads
    rw [Fragment.split]
    rfl
  next none =>
    rw [read?_written numeric] at none
    contradiction

/-- What may stand next to what: a group takes all the digits before it, and text is in one piece. -/
def Follows : Fragment → Fragment → Prop
  | .text letters, .group _ => ∀ last ∈ letters.getLast?, last.isDigit = false
  | .text _, .text _ => False
  | .group _, _ => True

def Proper : Fragment → Prop
  | .text letters => letters ≠ [] ∧ 'd' ∉ letters
  | .group spelling => Numeric spelling

/-- A text in groups and what stands between them. -/
structure Cuts (fragments : List Fragment) (text : List Char) : Prop where
  whole : fragments.flatMap characters = text
  proper : ∀ fragment ∈ fragments, Proper fragment
  chain : fragments.IsChain Follows

private theorem cuts_group (found : Spelling.read? text = some (spelling, rest)) (cuts : Cuts fragments rest) :
    Cuts (.group spelling :: fragments) text := by
  obtain ⟨whole, numeric⟩ := read?_reads found
  refine ⟨?_, List.forall_mem_cons.mpr ⟨numeric, cuts.proper⟩, List.isChain_cons.mpr ⟨fun _ _ => trivial, cuts.chain⟩⟩
  rw [List.flatMap_cons, cuts.whole]
  exact whole

private theorem outside {c : Char} (none : Spelling.read? (c :: text) = none) :
    c ≠ 'd' ∧ ∀ spelling others, Cuts (.group spelling :: others) text → c.isDigit = false := by
  rw [read?_eq_none] at none
  refine ⟨?_, fun spelling others cuts => ?_⟩
  · rintro rfl
    exact none text rfl
  · by_contra digit
    have numeric : Numeric spelling := cuts.proper (.group spelling) (by simp)
    have whole := cuts.whole
    rw [List.flatMap_cons, characters, written, List.append_assoc, List.cons_append] at whole
    apply none
    rw [List.dropWhile_cons_of_pos (by simpa using digit), ← whole]
    exact (digits_dropWhile numeric.amount (by rintro c ⟨⟩; decide)).2

private theorem cuts_text {c : Char} (none : Spelling.read? (c :: text) = none) (cuts : Cuts fragments text) :
    Cuts (Fragment.consText c fragments) (c :: text) := by
  obtain ⟨letter, digit⟩ := outside none
  have single : Proper (.text [c]) := ⟨by simp, by simpa using letter.symm⟩
  have whole := congrArg (c :: ·) cuts.whole
  cases fragments with
  | nil => exact ⟨whole, by simpa [Fragment.consText] using single, List.isChain_singleton _⟩
  | cons first others =>
    cases first with
    | group spelling =>
      refine ⟨whole, List.forall_mem_cons.mpr ⟨single, cuts.proper⟩, List.isChain_cons_cons.mpr ⟨?_, cuts.chain⟩⟩
      rintro last ⟨⟩
      exact digit spelling others cuts
    | text letters =>
      obtain ⟨⟨some, apart⟩, proper⟩ := List.forall_mem_cons.mp cuts.proper
      obtain ⟨follows, chain⟩ := List.isChain_cons.mp cuts.chain
      refine ⟨whole, List.forall_mem_cons.mpr ⟨⟨by simp, by simpa using ⟨letter.symm, apart⟩⟩, proper⟩, ?_⟩
      refine List.isChain_cons.mpr ⟨fun next member => ?_, chain⟩
      have before := follows next member
      cases next with
      | text => exact before
      | group => simpa [Follows, List.getLast?_cons, List.getLast?_eq_some_getLast some] using before

theorem split_cuts (text : List Char) : Cuts (Fragment.split text) text := by
  fun_induction Fragment.split text with
  | case1 text spelling rest found ih => exact cuts_group found ih
  | case2 => exact ⟨rfl, by simp, List.isChain_nil⟩
  | case3 c rest none ih => exact cuts_text none ih

structure Span where
  start : Nat
  stop : Nat

def spans : Nat → List Fragment → List Span
  | _, [] => []
  | start, .text letters :: rest => spans (start + letters.length) rest
  | start, .group spelling :: rest =>
    ⟨start, start + (written spelling).length⟩ :: spans (start + (written spelling).length) rest

theorem spans_after {start : Nat} :
    ∀ span ∈ spans start fragments, start ≤ span.start ∧ span.start < span.stop := by
  induction fragments generalizing start with
  | nil => simp [spans]
  | cons first rest ih =>
    cases first with
    | text letters =>
      intro span member
      have := ih span member
      omega
    | group spelling =>
      have some : 0 < (written spelling).length := List.length_pos_iff.mpr (by simp [written])
      refine List.forall_mem_cons.mpr ⟨⟨Nat.le_refl _, Nat.lt_add_of_pos_right some⟩, fun span member => ?_⟩
      have := ih span member
      omega

theorem spans_ordered (start : Nat) (fragments : List Fragment) :
    (spans start fragments).Pairwise fun first second => first.stop ≤ second.start := by
  induction fragments generalizing start with
  | nil => exact .nil
  | cons first rest ih =>
    cases first with
    | text letters => exact ih _
    | group spelling => exact .cons (fun span member => (spans_after span member).1) (ih _)

theorem spans_hold (before : List Char) (fragments : List Fragment) :
    List.Forall₂
      (fun span spelling => (before ++ fragments.flatMap characters).extract span.start span.stop = written spelling)
      (spans before.length fragments) (groups fragments) := by
  induction fragments generalizing before with
  | nil => exact .nil
  | cons first rest ih =>
    have behind := ih (before ++ characters first)
    rw [List.append_assoc, List.length_append] at behind
    cases first with
    | text letters => exact behind
    | group spelling =>
      refine .cons ?_ behind
      simp [characters, List.extract_eq_take_drop]

/-- Besides digits, only the three letters stand in a group. -/
theorem mem_written (numeric : Numeric spelling) : ∀ c ∈ written spelling, c.isDigit = true ∨ c ∈ ['d', 'l', 'h'] := by
  have drop {mark : Char} {drop : Option (List Char)} (letter : mark ∈ ['d', 'l', 'h'])
      (numeric : ∀ digits ∈ drop, Digits digits) :
      ∀ c ∈ dropCharacters mark drop, c.isDigit = true ∨ c ∈ ['d', 'l', 'h'] := by
    cases drop with
    | none => simp [dropCharacters]
    | some digits => exact List.forall_mem_cons.mpr ⟨.inr letter, fun c member => .inl (numeric digits rfl c member)⟩
  simp only [written, List.forall_mem_append, List.forall_mem_cons]
  exact ⟨fun c member => .inl (numeric.amount c member), .inr (by simp), fun c member => .inl (numeric.sides c member),
    drop (by simp) numeric.lowest, drop (by simp) numeric.highest⟩

theorem letter_not_mem {digits : List Char} (numeric : Digits digits) : 'd' ∉ digits := by
  intro member
  exact absurd (numeric 'd' member) (by decide)

private theorem count_digits {digits : List Char} (numeric : Digits digits) : digits.count 'd' = 0 :=
  List.count_eq_zero.mpr (letter_not_mem numeric)

private theorem count_dropCharacters {mark : Char} {drop : Option (List Char)} (numeric : ∀ digits ∈ drop, Digits digits)
    (other : mark ≠ 'd') : (dropCharacters mark drop).count 'd' = 0 := by
  cases drop with
  | none => rfl
  | some digits => rw [dropCharacters, List.count_cons_of_ne other, count_digits (numeric digits rfl)]

theorem count_written (numeric : Numeric spelling) : (written spelling).count 'd' = 1 := by
  rw [written, List.count_append, List.count_cons_self, List.count_append, List.count_append,
    count_digits numeric.amount, count_digits numeric.sides, count_dropCharacters numeric.lowest (by decide),
    count_dropCharacters numeric.highest (by decide)]

theorem mem_groups : spelling ∈ groups fragments ↔ .group spelling ∈ fragments := by
  induction fragments with
  | nil => simp [groups]
  | cons first rest ih => cases first <;> simp [groups, ih]

theorem count_groups (proper : ∀ fragment ∈ fragments, Proper fragment) :
    (groups fragments).length = (fragments.flatMap characters).count 'd' := by
  induction fragments with
  | nil => rfl
  | cons first rest ih =>
    obtain ⟨here, there⟩ := List.forall_mem_cons.mp proper
    rw [List.flatMap_cons, List.count_append, ← ih there]
    cases first with
    | text letters => simp [groups, characters, List.count_eq_zero.mpr here.2]
    | group spelling => rw [characters, count_written here, groups, List.length_cons, Nat.add_comm]

section Letters
variable {before after : List Char}

/-- There is one way to cut a text at its first d. -/
theorem first_letter {before' after' : List Char} (first : 'd' ∉ before) (first' : 'd' ∉ before')
    (same : before ++ 'd' :: after = before' ++ 'd' :: after') : before = before' ∧ after = after' := by
  rcases List.append_eq_append_iff.mp same with ⟨between, rfl, found⟩ | ⟨between, rfl, found⟩
  all_goals
    cases between with
    | nil => simpa [eq_comm] using found
    | cons c between =>
      obtain ⟨rfl, -⟩ := List.cons.inj found
      simp at first first'

private theorem groups_consText (c : Char) (fragments : List Fragment) :
    groups (Fragment.consText c fragments) = groups fragments := by
  cases fragments with
  | nil => rfl
  | cons first rest => cases first <;> rfl

private theorem read?_sides (found : Spelling.read? text = some (spelling, rest)) (same : text = before ++ 'd' :: after)
    (first : 'd' ∉ before) : spelling.sides = after.takeWhile Char.isDigit := by
  rw [Spelling.read?] at found
  split at found
  next afterLetter remaining =>
    have digits := letter_not_mem (digits_takeWhile text)
    have whole : before ++ 'd' :: after = text.takeWhile Char.isDigit ++ 'd' :: afterLetter := by
      rw [← same, ← remaining, List.takeWhile_append_dropWhile]
    rw [(first_letter first digits whole).2]
    simp only [Option.some.injEq, Prod.mk.injEq] at found
    rw [← found.1]
  next => contradiction

private theorem behind_group (found : Spelling.read? text = some (spelling, rest)) (same : text = before ++ 'd' :: after)
    (later : 'd' ∈ before) : ∃ between, before = written spelling ++ between ∧ rest = between ++ 'd' :: after := by
  obtain ⟨whole, numeric⟩ := read?_reads found
  rcases List.append_eq_append_iff.mp (whole.trans same) with inside | ⟨left, cut, behind⟩
  · exact inside
  · cases left with
    | nil => exact ⟨[], by simpa using cut.symm, by simpa using behind.symm⟩
    | cons c left =>
      obtain ⟨rfl, -⟩ := List.cons.inj behind
      have single := count_written numeric
      have some := List.count_pos_iff.mpr later
      rw [cut, List.count_append, List.count_cons_self] at single
      omega

/-- The groups of a text go with its letters d, in order, and each has the digits behind its letter for sides. -/
theorem group_of_letter (same : text = before ++ 'd' :: after) :
    ∃ spelling, (groups (Fragment.split text))[before.count 'd']? = some spelling ∧
      spelling.sides = after.takeWhile Char.isDigit := by
  fun_induction Fragment.split text generalizing before with
  | case1 text spelling rest found ih =>
    by_cases member : 'd' ∈ before
    · obtain ⟨between, rfl, behind⟩ := behind_group found same member
      rw [List.count_append, count_written (read?_reads found).2, Nat.add_comm, groups, List.getElem?_cons_succ]
      exact ih behind
    · rw [List.count_eq_zero.mpr member, groups]
      exact ⟨spelling, rfl, read?_sides found same member⟩
  | case2 => simp at same
  | case3 c rest none ih =>
    rw [groups_consText]
    cases before with
    | nil => exact absurd (List.cons.inj same).1 (outside none).1
    | cons first before =>
      obtain ⟨rfl, behind⟩ := List.cons.inj same
      rw [List.count_cons_of_ne (outside none).1]
      exact ih behind

end Letters

end DiceNotation.Proofs.Scanning

import DiceNotation.Proofs.ByteOffsets
import DiceNotation.Proofs.TemplateText

/-! The search for groups by offsets. It looks at every byte in turn, also at those inside of a character, where it never
finds a group. So it finds what a search by characters finds, and everything that it cuts out lies between boundaries. -/

namespace DiceNotation.Proofs.OffsetSearch
open Offsets ByteOffsets Runs
open Dice (Spelling)
open DiceNotation.Proofs.Extraction (places)
open Scanning (written characters groups spans Span)
open String (utf8Len)

variable {source : String} {offset start stop : Nat} {text rest pending : List Char} {byte : UInt8}
variable {spelling : Spelling} {fragments : List Fragment}

/-- One turn of the search: the offset that it looks at, and the group that it finds there. -/
structure Look where
  offset : Nat
  found : Option Located

def finds (looks : List Look) : List Located :=
  looks.filterMap Look.found

/-- The turns that the search takes from an offset to the end of the text. -/
inductive Search (source : String) : Nat → List Look → Prop where
  | ended {offset : Nat} (ends : source.utf8ByteSize ≤ offset) : Search source offset []
  | nothing {offset : Nat} {looks : List Look} (inside : offset < source.utf8ByteSize)
      (nothing : groupAt source offset = .ok none) (rest : Search source (offset + 1) looks) :
    Search source offset ({ offset, found := none } :: looks)
  | found {offset : Nat} {located : Located} {looks : List Look} (inside : offset < source.utf8ByteSize)
      (found : groupAt source offset = .ok (some located)) (rest : Search source located.stop looks) :
    Search source offset ({ offset, found := some located } :: looks)

section Groups
variable {bytes : ByteArray}

theorem skipDigits_digit (found : bytes[offset]? = some byte) (digit : isDigit byte = true) :
    skipDigits bytes offset = skipDigits bytes (offset + 1) := by
  obtain ⟨inside, same⟩ := getElem?_eq_some_iff.mp found
  rw [skipDigits, dif_pos inside, same, if_pos digit]

theorem skipDigits_stop (stops : ∀ byte ∈ bytes[offset]?, isDigit byte = false) : skipDigits bytes offset = offset := by
  rw [skipDigits]
  split
  next inside => rw [stops bytes[offset] (getElem?_eq_some_iff.mpr ⟨inside, rfl⟩), if_neg Bool.false_ne_true]
  next => rfl

theorem skipDigits_leaves (leaves : Leaves source offset text) :
    Leaves source (skipDigits source.toByteArray offset) (text.dropWhile Char.isDigit) := by
  have stopped {rest : List Char} {offset : Nat} (leaves : Leaves source offset rest)
      (stops : ∀ c ∈ rest.head?, c.isDigit = false) : skipDigits source.toByteArray offset = offset := by
    apply skipDigits_stop
    intro byte found
    by_contra digit
    obtain ⟨c, first, same⟩ := leaves.digit_iff.mp ⟨byte, found, by simpa using digit⟩
    simp [stops c first] at same
  induction text generalizing offset with
  | nil =>
    rw [stopped leaves (by simp)]
    exact leaves
  | cons c rest ih =>
    by_cases digit : c.isDigit = true
    · obtain ⟨byte, found, same⟩ := leaves.digit_iff.mpr ⟨c, rfl, digit⟩
      rw [skipDigits_digit found same, List.dropWhile_cons_of_pos digit]
      exact ih (leaves.next (digit_ascii digit))
    · rw [List.dropWhile_cons_of_neg digit, stopped leaves (by simpa using digit)]
      exact leaves

theorem cut_digits (leaves : Leaves source offset text) :
    cut source offset (skipDigits source.toByteArray offset) = .ok (String.ofList (text.takeWhile Char.isDigit)) := by
  have whole := leaves
  rw [← List.takeWhile_append_dropWhile (p := Char.isDigit) (l := text)] at whole
  exact whole.cut_eq (skipDigits_leaves leaves)

theorem dropAt_leaves (letter : Char) (ascii : letter.toNat < 128) (leaves : Leaves source offset text) :
    ∃ stop, dropAt source letter offset = .ok ((Spelling.readDrop letter text).1, stop) ∧
      Leaves source stop (Spelling.readDrop letter text).2 := by
  fun_cases Spelling.readDrop letter text with
  | case1 =>
    refine ⟨offset, ?_, leaves⟩
    rw [dropAt, if_neg (by simp [leaves.letter_iff ascii])]
    rfl
  | case2 rest =>
    have behind := leaves.next ascii
    refine ⟨_, ?_, skipDigits_leaves behind⟩
    rw [dropAt, if_pos (by simp [leaves.letter_iff ascii])]
    refine bind_ok.mpr ⟨_, cut_digits behind, ?_⟩
    rw [String.toList_ofList]
    rfl
  | case3 c rest other =>
    refine ⟨offset, ?_, leaves⟩
    rw [dropAt, if_neg (by simpa [leaves.letter_iff ascii] using other)]
    rfl

/-- A group is found where one stands first in what the offset leaves, and it is the same group. -/
theorem groupAt_some (leaves : Leaves source start text) (found : Spelling.read? text = some (spelling, rest)) :
    ∃ stop, groupAt source start = .ok (some ⟨start, stop, spelling⟩) ∧ Leaves source stop rest := by
  rw [Spelling.read?] at found
  split at found
  next afterLetter remaining =>
    simp only [Option.some.injEq, Prod.mk.injEq] at found
    obtain ⟨rfl, rfl⟩ := found
    have letter := skipDigits_leaves leaves
    rw [remaining] at letter
    have sides := letter.next (by decide)
    obtain ⟨lowestStop, lowest, afterLowest⟩ := dropAt_leaves 'l' (by decide) (skipDigits_leaves sides)
    obtain ⟨stop, highest, behind⟩ := dropAt_leaves 'h' (by decide) afterLowest
    refine ⟨stop, ?_, behind⟩
    rw [groupAt, if_pos ((letter.letter_iff (by decide)).mpr rfl)]
    refine bind_ok.mpr ⟨_, lowest, bind_ok.mpr ⟨_, highest, ?_⟩⟩
    refine bind_ok.mpr ⟨_, cut_digits leaves, bind_ok.mpr ⟨_, cut_digits sides, ?_⟩⟩
    rw [String.toList_ofList, String.toList_ofList]
    rfl
  next => contradiction

theorem groupAt_none (leaves : Leaves source start text) (nothing : Spelling.read? text = none) :
    groupAt source start = .ok none := by
  rw [groupAt, if_neg]
  · rfl
  · intro letter
    obtain ⟨rest, remaining⟩ := List.head?_eq_some_iff.mp (((skipDigits_leaves leaves).letter_iff (by decide)).mp letter)
    exact Scanning.read?_eq_none.mp nothing rest remaining

/-- Between the bytes of a character no group is found, and nothing is cut. -/
theorem groupAt_apart (apart : ¬ Boundary source start) : groupAt source start = .ok none := by
  have stops : ∀ byte ∈ source.toByteArray[start]?, isDigit byte = false := by
    intro byte found
    have high := high_of_not_boundary apart found
    by_contra digit
    have low := byte_ascii (by simpa using digit)
    omega
  rw [groupAt, skipDigits_stop stops, if_neg]
  · rfl
  · intro letter
    have high := high_of_not_boundary apart letter
    exact absurd high (by decide)

/-- What has been found lies between boundaries, and cut out of the text it is the group as it is written. -/
structure Placed (source : String) (located : Located) : Prop where
  forward : located.start < located.stop
  boundary : ∀ offset, located.start ≤ offset → offset ≤ located.stop → Boundary source offset
  whole : cut source located.start located.stop = .ok (String.ofList (written located.spelling))

theorem written_ascii (numeric : Scanning.Numeric spelling) : ∀ c ∈ written spelling, c.toNat < 128 := by
  intro c member
  rcases Scanning.mem_written numeric c member with digit | letter
  · exact digit_ascii digit
  · simp only [List.mem_cons, List.not_mem_nil, or_false] at letter
    rcases letter with rfl | rfl | rfl <;> decide

/-- Every offset is answered, whether it is a boundary or not. -/
theorem groupAt_answers (source : String) (start : Nat) : groupAt source start = .ok none ∨
    ∃ located, groupAt source start = .ok (some located) ∧ located.start = start ∧ Placed source located := by
  by_cases boundary : Boundary source start
  · obtain ⟨text, leaves⟩ := boundary_iff.mp boundary
    cases read : Spelling.read? text with
    | none => exact .inl (groupAt_none leaves read)
    | some found =>
      right
      obtain ⟨stop, located, behind⟩ := groupAt_some leaves read
      obtain ⟨whole, numeric⟩ := Scanning.read?_reads read
      rw [← whole] at leaves
      refine ⟨_, located, rfl, lt_of_groupAt located, ?_, leaves.cut_eq behind⟩
      intro offset after before
      exact leaves.boundaries (written_ascii numeric) after (behind.unique leaves.forward ▸ before)
  · exact .inl (groupAt_apart boundary)

theorem placed_of_groupAt {located : Located} (found : groupAt source start = .ok (some located)) :
    located.start = start ∧ Placed source located := by
  obtain nothing | ⟨other, answer, placed⟩ := groupAt_answers source start
  · rw [nothing] at found
    cases found
  · rw [answer] at found
    cases found
    exact placed

end Groups

section Search
variable {located : Located} {looks : List Look}

theorem finds_nothing : finds ({ offset, found := none } :: looks) = finds looks := rfl

theorem finds_found : finds ({ offset, found := some located } :: looks) = located :: finds looks := rfl

theorem locateFrom_ended (ends : source.utf8ByteSize ≤ offset) : locateFrom source offset = .ok [] := by
  rw [locateFrom, if_neg (Nat.not_lt.mpr ends)]
  rfl

theorem locateFrom_nothing (inside : offset < source.utf8ByteSize) (nothing : groupAt source offset = .ok none) :
    locateFrom source offset = locateFrom source (offset + 1) := by
  rw [locateFrom, if_pos inside]
  split
  next other => simp [nothing] at other
  next other => simp [nothing] at other
  next => rfl

theorem locateFrom_found (inside : offset < source.utf8ByteSize) (found : groupAt source offset = .ok (some located)) :
    locateFrom source offset = (located :: ·) <$> locateFrom source located.stop := by
  rw [locateFrom, if_pos inside]
  split
  next other => simp [found] at other
  next other answer =>
    rw [found] at answer
    cases answer
    rfl
  next other => simp [found] at other

/-- The search always comes to an end, and no cut of it is misplaced. -/
theorem exists_search (source : String) (start : Nat) :
    ∃ looks, Search source start looks ∧ locateFrom source start = .ok (finds looks) := by
  fun_induction locateFrom source start with
  | case1 offset inside misplaced refused =>
    obtain nothing | ⟨located, found, -⟩ := groupAt_answers source offset
    · rw [nothing] at refused
      cases refused
    · rw [found] at refused
      cases refused
  | case2 offset inside located found ih =>
    obtain ⟨looks, search, finds⟩ := ih
    refine ⟨_, .found inside found search, ?_⟩
    rw [finds]
    rfl
  | case3 offset inside nothing ih =>
    obtain ⟨looks, search, finds⟩ := ih
    exact ⟨_, .nothing inside nothing search, finds⟩
  | case4 offset ends => exact ⟨[], .ended (Nat.not_lt.mp ends), rfl⟩

namespace Search

theorem placed (search : Search source start looks) : ∀ located ∈ finds looks,
    start ≤ located.start ∧ Placed source located := by
  induction search with
  | ended => simp [finds]
  | nothing inside nothing rest ih =>
    intro located member
    obtain ⟨behind, placed⟩ := ih located member
    exact ⟨by omega, placed⟩
  | found inside found rest ih =>
    obtain ⟨starts, placed⟩ := placed_of_groupAt found
    refine List.forall_mem_cons.mpr ⟨⟨by omega, placed⟩, ?_⟩
    intro other member
    obtain ⟨behind, placed'⟩ := ih other member
    have forward := placed.forward
    exact ⟨by omega, placed'⟩

/-- Every turn reports what stands at its offset. -/
theorem answers (search : Search source start looks) : ∀ look ∈ looks, groupAt source look.offset = .ok look.found := by
  induction search with
  | ended => simp
  | nothing inside nothing rest ih => exact List.forall_mem_cons.mpr ⟨nothing, ih⟩
  | found inside found rest ih => exact List.forall_mem_cons.mpr ⟨found, ih⟩

/-- The search takes no more turns than there are bytes left. -/
theorem length_le (search : Search source start looks) : looks.length ≤ source.utf8ByteSize - start := by
  induction search with
  | ended => simp
  | nothing inside nothing rest ih =>
    rw [List.length_cons]
    omega
  | found inside found rest ih =>
    have forward := lt_of_groupAt found
    rw [List.length_cons]
    omega

/-- The search looks at all offsets but those inside of a group that it has found. -/
theorem mem_offsets (search : Search source start looks) : offset ∈ looks.map Look.offset ↔
    start ≤ offset ∧ offset < source.utf8ByteSize ∧
      ∀ located ∈ finds looks, ¬ (located.start < offset ∧ offset < located.stop) := by
  induction search with
  | ended ends =>
    simp only [List.map_nil, List.not_mem_nil, false_iff]
    omega
  | @nothing start looks inside nothing rest ih =>
    have outside : ∀ located ∈ finds looks, ¬ (located.start < start ∧ start < located.stop) := by
      intro located member
      have behind := (rest.placed located member).1
      omega
    rw [List.map_cons, List.mem_cons, ih, finds_nothing]
    constructor
    · rintro (rfl | ⟨behind, before, apart⟩)
      · exact ⟨Nat.le_refl _, inside, outside⟩
      · exact ⟨by omega, before, apart⟩
    · rintro ⟨behind, before, apart⟩
      rcases Nat.eq_or_lt_of_le behind with same | further
      · exact .inl same.symm
      · exact .inr ⟨further, before, apart⟩
  | @found start located looks inside found rest ih =>
    obtain ⟨starts, placed⟩ := placed_of_groupAt found
    have forward := placed.forward
    have outside : ∀ other ∈ finds looks, ¬ (other.start < start ∧ start < other.stop) := by
      intro other member
      have behind := (rest.placed other member).1
      omega
    rw [List.map_cons, List.mem_cons, ih, finds_found, List.forall_mem_cons]
    constructor
    · rintro (rfl | ⟨behind, before, apart⟩)
      · exact ⟨Nat.le_refl _, inside, by omega, outside⟩
      · exact ⟨by omega, before, by omega, apart⟩
    · rintro ⟨behind, before, here, apart⟩
      rcases Nat.eq_or_lt_of_le behind with same | further
      · exact .inl same.symm
      · exact .inr ⟨by omega, before, apart⟩

/-- Offsets between the bytes of a character are looked at as well. -/
theorem mem_apart (search : Search source start looks) (after : start ≤ offset) (inside : offset < source.utf8ByteSize)
    (apart : ¬ Boundary source offset) : { offset, found := none } ∈ looks := by
  have outside : ∀ located ∈ finds looks, ¬ (located.start < offset ∧ offset < located.stop) := by
    rintro located member ⟨behind, before⟩
    exact apart ((search.placed located member).2.boundary offset (by omega) (by omega))
  obtain ⟨look, member, rfl⟩ := List.mem_map.mp (search.mem_offsets.mpr ⟨after, inside, outside⟩)
  have answer := (search.answers look member).symm.trans (groupAt_apart apart)
  rwa [← Except.ok.inj answer]

end Search

/-- What a search by characters finds, at the offsets where its fragments lie. -/
def placements : Nat → List Fragment → List Located
  | _, [] => []
  | start, .text letters :: rest => placements (start + utf8Len letters) rest
  | start, .group spelling :: rest =>
    { start, stop := start + utf8Len (written spelling), spelling } :: placements (start + utf8Len (written spelling)) rest

theorem placements_consText (start : Nat) (c : Char) (fragments : List Fragment) :
    placements start (Fragment.consText c fragments) = placements (start + c.utf8Size) fragments := by
  cases fragments with
  | nil => rfl
  | cons first rest =>
    cases first with
    | group spelling => simp only [Fragment.consText, placements, String.utf8Len_cons, String.utf8Len_nil, Nat.zero_add]
    | text letters =>
      simp only [Fragment.consText, placements, String.utf8Len_cons]
      rw [Nat.add_comm (utf8Len letters), Nat.add_assoc]

/-- The search passes over offsets at which it finds nothing. -/
theorem locateFrom_moved (count : Nat) (inside : start + count ≤ source.utf8ByteSize)
    (nothing : ∀ offset, start ≤ offset → offset < start + count → groupAt source offset = .ok none) :
    locateFrom source start = locateFrom source (start + count) := by
  induction count with
  | zero => rfl
  | succ count ih =>
    rw [ih (by omega) fun offset behind before => nothing offset behind (by omega)]
    exact locateFrom_nothing (by omega) (nothing (start + count) (by omega) (by omega))

theorem locateFrom_split (leaves : Leaves source start text) :
    locateFrom source start = .ok (placements start (Fragment.split text)) := by
  fun_induction Fragment.split text generalizing start with
  | case1 text spelling rest found ih =>
    obtain ⟨stop, here, behind⟩ := groupAt_some leaves found
    have whole := (Scanning.read?_reads found).1
    have ends : stop = start + utf8Len (written spelling) := behind.unique (whole ▸ leaves).forward
    have inside : start < source.utf8ByteSize := by
      have forward := lt_of_groupAt here
      have size := behind.size
      simp only at forward
      omega
    rw [locateFrom_found inside here, ih behind, placements, ends]
    rfl
  | case2 => exact locateFrom_ended (by simp [leaves.size])
  | case3 c rest nothing ih =>
    have behind : Leaves source (start + utf8Len [c]) rest := leaves.forward
    rw [String.utf8Len_cons, String.utf8Len_nil, Nat.zero_add] at behind
    have size := behind.size
    rw [placements_consText, ← ih behind]
    -- The search goes on byte by byte, through the inside of the character, until it comes to the next one.
    apply locateFrom_moved c.utf8Size (by omega)
    intro offset after before
    rcases Nat.eq_or_lt_of_le after with rfl | further
    · exact groupAt_none leaves nothing
    · exact groupAt_apart (leaves.not_boundary further before)

def offsetOf (source : String) (place : Nat) : Nat :=
  utf8Len (source.toList.take place)

def byCharacters (source : String) : List Located :=
  List.zipWith (fun span spelling => { start := offsetOf source span.start, stop := offsetOf source span.stop, spelling })
    (places source) (groups (Fragment.split source.toList))

theorem offsetOf_front {front : List Char} (whole : source.toList = front ++ rest) :
    offsetOf source front.length = utf8Len front := by
  rw [offsetOf, whole, List.take_left]

theorem placements_spans (front : List Char) (whole : source.toList = front ++ fragments.flatMap characters) :
    placements (utf8Len front) fragments =
      List.zipWith (fun span spelling => { start := offsetOf source span.start, stop := offsetOf source span.stop, spelling })
        (spans front.length fragments) (groups fragments) := by
  induction fragments generalizing front with
  | nil => rfl
  | cons first rest ih =>
    rw [List.flatMap_cons, ← List.append_assoc] at whole
    have behind := ih (front ++ characters first) whole
    rw [List.length_append, String.utf8Len_append] at behind
    cases first with
    | text letters => exact behind
    | group spelling =>
      have stops := offsetOf_front whole
      rw [List.append_assoc] at whole
      have starts := offsetOf_front whole
      rw [List.length_append, String.utf8Len_append] at stops
      rw [placements, spans, groups, List.zipWith_cons_cons, starts]
      rw [characters] at stops behind
      rw [stops, behind]

theorem placements_split (source : String) : placements 0 (Fragment.split source.toList) = byCharacters source := by
  apply placements_spans []
  rw [(Scanning.split_cuts source.toList).whole, List.nil_append]

end Search

section Extracting
variable {extraction : Extraction}

/-- What is taken out at offsets is what is taken out by fragments, where the text from `start` on has not been pushed yet. -/
theorem extractFrom_split (leaves : Leaves source start (pending ++ fragments.flatMap characters)) :
    extractFrom source start extraction (placements (start + utf8Len pending) fragments) =
      .ok (fragments.foldlM Extraction.add
        { extraction with template := extraction.template.pushText (String.ofList pending) }) := by
  -- Text waits until a group or the end comes after it, so all of what waits is pushed at once.
  induction fragments generalizing start pending extraction with
  | nil =>
    have behind : Leaves source (start + utf8Len pending) [] := leaves.forward
    have ends : source.utf8ByteSize = start + utf8Len pending := by simpa using behind.size
    have taken := leaves.cut_eq (ends ▸ behind)
    exact bind_ok.mpr ⟨_, taken, rfl⟩
  | cons first rest ih =>
    cases first with
    | text letters =>
      have later : Leaves source start ((pending ++ letters) ++ rest.flatMap characters) := by
        rw [List.append_assoc]
        exact leaves
      rw [placements, Nat.add_assoc, ← String.utf8Len_append, ih later, String.ofList_append,
        ← TemplateText.pushText_pushText]
      rfl
    | group spelling =>
      have here : Leaves source (start + utf8Len pending) (written spelling ++ rest.flatMap characters) := leaves.forward
      have taken := leaves.cut_eq here
      rw [placements, extractFrom, List.foldlM_cons, Extraction.add]
      refine bind_ok.mpr ⟨_, taken, ?_⟩
      cases spelling.dice with
      | error violation => rfl
      | ok dice =>
        have behind : Leaves source (start + utf8Len pending + utf8Len (written spelling)) ([] ++ rest.flatMap characters) :=
          here.forward
        refine (ih behind).trans ?_
        rw [String.ofList_nil, TemplateText.pushText_empty]
        rfl

theorem extract_split (source : String) : extract source = .ok ({ source } : Pattern).extract := by
  have leaves : Leaves source 0 ([] ++ (Fragment.split source.toList).flatMap characters) := by
    rw [List.nil_append, (Scanning.split_cuts source.toList).whole]
    exact leaves_all source
  refine bind_ok.mpr ⟨_, locateFrom_split (leaves_all source), (extractFrom_split leaves).trans ?_⟩
  rw [String.ofList_nil, TemplateText.pushText_empty]
  rfl

end Extracting

/-- A search of a whole text: in which turns it comes to its end, and what it finds. -/
structure Searched (source : String) (looks : List Look) : Prop where
  turns : Search source 0 looks
  ends : looks.length ≤ source.utf8ByteSize
  offsets : ∀ offset, offset ∈ looks.map Look.offset ↔ offset < source.utf8ByteSize ∧
    ∀ located ∈ finds looks, ¬ (located.start < offset ∧ offset < located.stop)
  apart : ∀ offset < source.utf8ByteSize, ¬ Boundary source offset → { offset, found := none } ∈ looks
  located : locate source = .ok (finds looks)
  placed : ∀ located ∈ finds looks, Placed source located
  same : finds looks = byCharacters source

theorem exists_searched (source : String) : ∃ looks, Searched source looks := by
  obtain ⟨looks, search, finds⟩ := exists_search source 0
  refine ⟨looks, search, search.length_le, ?_, ?_, finds, fun located member => (search.placed located member).2, ?_⟩
  · intro offset
    rw [search.mem_offsets, and_iff_right (Nat.zero_le offset)]
  · exact fun offset inside apart => search.mem_apart (Nat.zero_le offset) inside apart
  · rw [← placements_split]
    exact Except.ok.inj (finds.symm.trans (locateFrom_split (leaves_all source)))

/-- Whatever the characters of a text are, no cut of it is misplaced: not at any offset, nor in the search for its groups,
which ends and finds the groups that a search by characters finds, nor where these are taken out of it. -/
theorem offsets_safe (source : String) :
    (∀ offset, ∃ answer, groupAt source offset = .ok answer ∧ (¬ Boundary source offset → answer = none) ∧
      ∀ located ∈ answer, located.start = offset ∧ Placed source located) ∧
    (∃ looks, Searched source looks) ∧ extract source = .ok ({ source } : Pattern).extract := by
  refine ⟨?_, exists_searched source, extract_split source⟩
  intro offset
  obtain nothing | ⟨located, found, placed⟩ := groupAt_answers source offset
  · exact ⟨none, nothing, fun _ => rfl, by simp⟩
  · refine ⟨some located, found, ?_, by simpa using placed⟩
    intro apart
    cases found.symm.trans (groupAt_apart apart)

/-- Bytes of the other characters separate the groups, and a cut between them is refused. -/
example : (locate "é2d6l1日d").toOption =
      some [⟨2, 7, ['2'], ['6'], some ['1'], none⟩, ⟨10, 11, [], [], none, none⟩] ∧
    (cut "é2d6l1日d" 1 2).toOption = none := by
  decide +kernel

end DiceNotation.Proofs.OffsetSearch

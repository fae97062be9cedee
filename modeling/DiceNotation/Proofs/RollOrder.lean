import DiceNotation.Proofs.PatternText
import DiceNotation.Proofs.RollRange

/-! One source of words for all groups of a pattern. Each group goes on with what the groups before it left, and
nothing but the sides and amounts of the groups decides how much that is. -/

namespace DiceNotation.Proofs.RollOrder
open PatternCalls RollRange Runs

variable {dice others : List Dice}

def left (words : Words) (dice : List Dice) : Words :=
  dice.foldl (fun words group => (group.roll words).value.2) words

/-- What comes of rolling groups in order: the throw of each, from the words that those before it left. -/
structure InOrder (dice : List Dice) (words : Words) (rolled : List Throw × Words) : Prop where
  each : ∀ index, rolled.1[index]? = dice[index]?.map fun group => (Dice.roll group (left words (dice.take index))).value.1
  rest : rolled.2 = left words dice

theorem mapM_inOrder (dice : List Dice) (words : Words) : InOrder dice words (dice.mapM Dice.roll words).value := by
  induction dice generalizing words with
  | nil => exact ⟨fun index => rfl, rfl⟩
  | cons first rest ih =>
    rw [List.mapM_cons, value_bind, value_bind]
    obtain ⟨each, remaining⟩ := ih (first.roll words).value.2
    refine ⟨fun index => ?_, remaining⟩
    cases index with
    | zero => rfl
    | succ index => exact each index

def Alike (first second : Dice) : Prop := first.sides = second.sides ∧ first.amount = second.amount

instance (first second : Dice) : Decidable (Alike first second) := inferInstanceAs (Decidable (_ ∧ _))

def SameFaces (first second : Throw) : Prop := (first.kept ++ first.dropped).Perm (second.kept ++ second.dropped)

theorem roll_faces (dice : Dice) (words : Words) :
    ((dice.roll words).value.1.kept ++ (dice.roll words).value.1.dropped).Perm (dice.faces words).1 := by
  obtain ⟨-, perm⟩ := kept_dropped dice words
  rw [roll_value]
  exact List.perm_append_comm.trans perm

theorem roll_alike {first second : Dice} (alike : Alike first second) (words : Words) :
    (first.roll words).value.2 = (second.roll words).value.2 ∧
      SameFaces (first.roll words).value.1 (second.roll words).value.1 := by
  have same : first.faces words = second.faces words := by rw [Dice.faces, Dice.faces, alike.1, alike.2]
  refine ⟨?_, (roll_faces first words).trans ?_⟩
  · rw [roll_value, roll_value, same]
  · rw [same]
    exact (roll_faces second words).symm

theorem mapM_alike (alike : List.Forall₂ Alike dice others) (words : Words) :
    (dice.mapM Dice.roll words).value.2 = (others.mapM Dice.roll words).value.2 ∧
      List.Forall₂ SameFaces (dice.mapM Dice.roll words).value.1 (others.mapM Dice.roll words).value.1 := by
  induction alike generalizing words with
  | nil => exact ⟨rfl, .nil⟩
  | cons here _ ih =>
    obtain ⟨left, faces⟩ := roll_alike here words
    simp only [List.mapM_cons, value_bind]
    rw [← left]
    obtain ⟨rest, others⟩ := ih _
    exact ⟨rest, .cons faces others⟩

section Patterns

def Compiles (pattern : Pattern) : Prop := pattern.ensureCompiled.value.1 = .ok ()

def compiled (pattern : Pattern) : Pattern := pattern.ensureCompiled.value.2

variable {pattern : Pattern}

theorem roll_compiled (compiles : Compiles pattern) (words : Words) :
    (pattern.roll words).value =
      ((Outcome.ofThrows (compiled pattern).template ((compiled pattern).dice.mapM Dice.roll words).value.1, compiled pattern),
        ((compiled pattern).dice.mapM Dice.roll words).value.2) :=
  roll_ready (Prod.ext compiles rfl)

/-- A roll draws its words group by group before anything is evaluated, and none where a group is refused. -/
structure Threaded (pattern : Pattern) (words : Words) : Prop where
  refused : ∀ error, pattern.ensureCompiled.value.1 = .error error →
    (pattern.roll words).value.1.1 = .error error ∧ (pattern.roll words).value.2 = words
  thrown : Compiles pattern → ∃ throws, InOrder (compiled pattern).dice words (throws, (pattern.roll words).value.2) ∧
    (pattern.roll words).value.1.1 = Outcome.ofThrows (compiled pattern).template throws ∧
    ∀ outcome, (pattern.roll words).value.1.1 = .ok outcome → outcome.throws = throws

theorem threaded (pattern : Pattern) (words : Words) : Threaded pattern words := by
  constructor
  · intro error refused
    rw [roll_refused (Prod.ext refused rfl)]
    exact ⟨rfl, rfl⟩
  · intro compiles
    rw [roll_compiled compiles]
    exact ⟨_, mapM_inOrder _ words, rfl, fun outcome settled => (PatternText.ofThrows_ok settled).2.1⟩

/-- The words are handed on from group to group, and patterns whose groups are of the same sizes take the same
words and show the same faces. -/
theorem roll_threads (first second : Pattern) (words : Words) :
    Threaded first words ∧
    (Compiles first → Compiles second → List.Forall₂ Alike (compiled first).dice (compiled second).dice →
      (first.roll words).value.2 = (second.roll words).value.2 ∧
      ∀ outcome outcome', (first.roll words).value.1.1 = .ok outcome → (second.roll words).value.1.1 = .ok outcome' →
        List.Forall₂ SameFaces outcome.throws outcome'.throws) := by
  refine ⟨threaded first words, fun compiles compiles' alike => ?_⟩
  obtain ⟨rest, faces⟩ := mapM_alike alike words
  rw [roll_compiled compiles, roll_compiled compiles']
  refine ⟨rest, fun outcome outcome' settled settled' => ?_⟩
  rw [(PatternText.ofThrows_ok settled).2.1, (PatternText.ofThrows_ok settled').2.1]
  exact faces

/-- Two patterns that have nothing in common but the sizes of their groups. -/
theorem roll_threads_drops : ∃ first second : Pattern, first.source = "3d6l1+1d4" ∧ second.source = "9//2-max(3d6h2,0)*1d4l1" ∧
    Compiles first ∧ Compiles second ∧ List.Forall₂ Alike (compiled first).dice (compiled second).dice ∧
    Threaded first (Words.scripted #[] 7) ∧
    (first.roll (Words.scripted #[] 7)).value.2 = (second.roll (Words.scripted #[] 7)).value.2 ∧
    ∃ outcome outcome', (first.roll (Words.scripted #[] 7)).value.1.1 = .ok outcome ∧
      (second.roll (Words.scripted #[] 7)).value.1.1 = .ok outcome' ∧
      List.Forall₂ SameFaces outcome.throws outcome'.throws := by
  refine ⟨{ source := "3d6l1+1d4" }, { source := "9//2-max(3d6h2,0)*1d4l1" }, rfl, rfl, ?_⟩
  have compiles : Compiles { source := "3d6l1+1d4" } := by
    unfold Compiles
    decide +kernel
  have compiles' : Compiles { source := "9//2-max(3d6h2,0)*1d4l1" } := by
    unfold Compiles
    decide +kernel
  have alike : List.Forall₂ Alike (compiled { source := "3d6l1+1d4" }).dice
      (compiled { source := "9//2-max(3d6h2,0)*1d4l1" }).dice := by
    decide +kernel
  obtain ⟨threaded, same⟩ := roll_threads { source := "3d6l1+1d4" } { source := "9//2-max(3d6h2,0)*1d4l1" } (Words.scripted #[] 7)
  obtain ⟨rest, faces⟩ := same compiles compiles' alike
  refine ⟨compiles, compiles', alike, threaded, rest, ?_⟩
  obtain ⟨outcome, settled⟩ := exists_of_isOk (Pattern.roll { source := "3d6l1+1d4" } (Words.scripted #[] 7)).value.1.1 (by decide +kernel)
  obtain ⟨outcome', settled'⟩ := exists_of_isOk
    (Pattern.roll { source := "9//2-max(3d6h2,0)*1d4l1" } (Words.scripted #[] 7)).value.1.1 (by decide +kernel)
  exact ⟨outcome, outcome', settled, settled', faces outcome outcome' settled settled'⟩

end Patterns

end DiceNotation.Proofs.RollOrder

import DiceNotation.Dice.Roll
import Mathlib.Data.List.Sort

/-! What is dropped. Taking the extreme value again and again, each time at its first place, takes the values that
a sorted list begins with, and of equal ones those that stand first. -/

namespace DiceNotation.Proofs.Drops

variable {before : UInt32 → UInt32 → Bool} {extreme : List UInt32 → Option UInt32} {values : List UInt32}
  {occurrences : List (UInt32 × Nat)} {first : UInt32 × Nat} {count lowest highest : Nat}

structure Finds (before : UInt32 → UInt32 → Bool) (extreme : List UInt32 → Option UInt32) : Prop where
  trans : ∀ a b c, before a b = true → before b c = true → before a c = true
  total : ∀ a b, (before a b || before b a) = true
  antisymm : ∀ a b, before a b = true → before b a = true → a = b
  first : ∀ {values value}, extreme values = some value ↔ value ∈ values ∧ ∀ other ∈ values, before value other = true

theorem finds_min : Finds (· ≤ ·) List.min? where
  trans a b c := by simpa using UInt32.le_trans
  total a b := by simpa using UInt32.le_total a b
  antisymm a b := by simpa using UInt32.le_antisymm
  first := by simp [List.min?_eq_some_iff]

private theorem max_le_iff (a b c : UInt32) : max a b ≤ c ↔ a ≤ c ∧ b ≤ c := by
  change (if a ≤ b then b else a) ≤ c ↔ a ≤ c ∧ b ≤ c
  rcases UInt32.le_total a b with le | ge
  · rw [if_pos le]
    exact ⟨fun high => ⟨UInt32.le_trans le high, high⟩, And.right⟩
  · split
    next le => exact ⟨fun high => ⟨UInt32.le_trans le high, high⟩, And.right⟩
    next => exact ⟨fun high => ⟨high, UInt32.le_trans ge high⟩, And.left⟩

private theorem max_eq_or (a b : UInt32) : max a b = a ∨ max a b = b := by
  change (if a ≤ b then b else a) = a ∨ (if a ≤ b then b else a) = b
  split <;> simp

theorem finds_max : Finds (· ≥ ·) List.max? where
  trans a b c := by simpa using fun ge ge' => UInt32.le_trans ge' ge
  total a b := by simpa using UInt32.le_total b a
  antisymm a b := by simpa using fun ge ge' => UInt32.le_antisymm ge' ge
  first := by
    have : Std.LawfulOrderMax UInt32 := { max_le_iff, max_eq_or }
    simp [List.max?_eq_some_iff]

/-- Of equal values the one that stands first. -/
def earlier (before : UInt32 → UInt32 → Bool) (first second : UInt32 × Nat) : Bool :=
  before first.1 second.1 && (first.1 != second.1 || first.2 ≤ second.2)

/-- The occurrences that are taken, in the order in which they are. -/
def taken (before : UInt32 → UInt32 → Bool) (count : Nat) (occurrences : List (UInt32 × Nat)) : List (UInt32 × Nat) :=
  (occurrences.mergeSort (earlier before)).take count

def untaken (before : UInt32 → UInt32 → Bool) (count : Nat) (occurrences : List (UInt32 × Nat)) : List (UInt32 × Nat) :=
  occurrences.filter (· ∉ taken before count occurrences)

/-- The places of a list as it is, or of what is left of one. -/
def Placed (occurrences : List (UInt32 × Nat)) : Prop := occurrences.Pairwise (·.2 < ·.2)

theorem placed_zipIdx (values : List UInt32) : Placed values.zipIdx := by
  have places : values.zipIdx.Pairwise fun first second => first.2 < second.2 := by
    rw [← List.pairwise_map (f := Prod.snd) (R := (· < ·)), List.zipIdx_map_snd]
    exact List.pairwise_lt_range'
  exact places

namespace Finds

theorem earlier_trans (finds : Finds before extreme) (a b c : UInt32 × Nat) (ab : earlier before a b = true)
    (bc : earlier before b c = true) : earlier before a c = true := by
  simp only [earlier, Bool.and_eq_true, Bool.or_eq_true, bne_iff_ne, decide_eq_true_eq] at ab bc ⊢
  refine ⟨finds.trans _ _ _ ab.1 bc.1, ?_⟩
  by_cases same : a.1 = c.1
  · have middle : a.1 = b.1 := finds.antisymm _ _ ab.1 (same ▸ bc.1)
    have low := ab.2.resolve_left (not_not.mpr middle)
    have high := bc.2.resolve_left (not_not.mpr (middle.symm.trans same))
    exact .inr (low.trans high)
  · exact .inl same

theorem earlier_total (finds : Finds before extreme) (a b : UInt32 × Nat) :
    (earlier before a b || earlier before b a) = true := by
  have total := finds.total a.1 b.1
  by_cases same : a.1 = b.1
  · have places := Nat.le_total a.2 b.2
    simp_all [earlier]
  · simp_all [earlier, Ne.symm same]

theorem earlier_antisymm (finds : Finds before extreme) (a b : UInt32 × Nat) (ab : earlier before a b = true)
    (ba : earlier before b a = true) : a = b := by
  simp only [earlier, Bool.and_eq_true, Bool.or_eq_true, bne_iff_ne, decide_eq_true_eq] at ab ba
  have value : a.1 = b.1 := finds.antisymm _ _ ab.1 ba.1
  have low := ab.2.resolve_left (not_not.mpr value)
  have high := ba.2.resolve_left (not_not.mpr value.symm)
  exact Prod.ext value (Nat.le_antisymm low high)

theorem sorted_pairwise (finds : Finds before extreme) (occurrences : List (UInt32 × Nat)) :
    (occurrences.mergeSort (earlier before)).Pairwise (earlier before · · = true) :=
  List.pairwise_mergeSort finds.earlier_trans finds.earlier_total occurrences

/-- The occurrences sorted begin with the one that is taken first, and go on with the others sorted. -/
theorem sorted_cons (finds : Finds before extreme) {rest : List (UInt32 × Nat)}
    (sorted : occurrences.mergeSort (earlier before) = first :: rest) :
    first ∈ occurrences ∧ (∀ other ∈ occurrences, earlier before first other = true) ∧
      (occurrences.erase first).mergeSort (earlier before) = rest := by
  have perm : (first :: rest).Perm occurrences := sorted ▸ List.mergeSort_perm occurrences _
  obtain ⟨ahead, pairwise⟩ := List.pairwise_cons.mp (sorted ▸ finds.sorted_pairwise occurrences)
  refine ⟨perm.subset (.head _), fun other member => ?_, ?_⟩
  · rcases List.mem_cons.mp (perm.symm.subset member) with rfl | behind
    · simpa using finds.earlier_total other other
    · exact ahead other behind
  · have others : ((occurrences.erase first).mergeSort (earlier before)).Perm rest := by
      refine (List.mergeSort_perm _ _).trans ?_
      simpa using (perm.erase first).symm
    exact others.eq_of_pairwise (fun a b _ _ => finds.earlier_antisymm a b) (finds.sorted_pairwise _) pairwise

theorem extreme_nil (finds : Finds before extreme) : extreme [] = none :=
  Option.eq_none_iff_forall_ne_some.mpr fun _ found => absurd (finds.first.mp found).1 List.not_mem_nil

theorem extreme_eq (finds : Finds before extreme) (member : first ∈ occurrences)
    (ahead : ∀ other ∈ occurrences, earlier before first other = true) :
    extreme (occurrences.map Prod.fst) = some first.1 := by
  refine finds.first.mpr ⟨List.mem_map_of_mem member, List.forall_mem_map.mpr fun other member => ?_⟩
  have order := ahead other member
  rw [earlier, Bool.and_eq_true] at order
  exact order.1

end Finds

/-- Of equal values the first is erased, and it is the occurrence that comes before the others. -/
theorem map_erase (placed : Placed occurrences) (member : first ∈ occurrences)
    (ahead : ∀ other ∈ occurrences, earlier before first other = true) :
    (occurrences.map Prod.fst).erase first.1 = (occurrences.erase first).map Prod.fst := by
  induction occurrences with
  | nil => contradiction
  | cons head rest ih =>
    obtain ⟨behind, placed⟩ := List.pairwise_cons.mp placed
    by_cases same : head = first
    · simp [same]
    · have inside : first ∈ rest := (List.mem_cons.mp member).resolve_left (Ne.symm same)
      have other : head.1 ≠ first.1 := by
        intro equal
        have order := ahead head (.head _)
        have later := behind first inside
        simp only [earlier, Bool.and_eq_true, Bool.or_eq_true, bne_iff_ne, decide_eq_true_eq] at order
        have place := order.2.resolve_left (not_not.mpr equal.symm)
        omega
      rw [List.erase_cons_tail (by simpa using same), List.map_cons, List.map_cons,
        List.erase_cons_tail (by simpa using other), ih placed inside fun other member => ahead other (.tail _ member)]

/-- Taking extreme values one by one takes the occurrences that come first. -/
theorem Finds.takeExtremes_map (finds : Finds before extreme) (count : Nat) (placed : Placed occurrences) :
    takeExtremes extreme count (occurrences.map Prod.fst) =
      ((taken before count occurrences).map Prod.fst, (untaken before count occurrences).map Prod.fst) := by
  induction count generalizing occurrences with
  | zero => simp [takeExtremes, taken, untaken]
  | succ count ih =>
    cases sorted : occurrences.mergeSort (earlier before) with
    | nil =>
      obtain rfl : occurrences = [] := List.eq_nil_of_length_eq_zero (by simpa using congrArg List.length sorted)
      simp [takeExtremes, finds.extreme_nil, taken, untaken]
    | cons first rest =>
      obtain ⟨member, ahead, remaining⟩ := finds.sorted_cons sorted
      have placed' : Placed (occurrences.erase first) := placed.sublist List.erase_sublist
      have nodup : occurrences.Nodup := placed.imp fun less same => by simp [same] at less
      have taken_succ : taken before (count + 1) occurrences = first :: taken before count (occurrences.erase first) := by
        rw [taken, taken, sorted, remaining, List.take_succ_cons]
      have untaken_succ : untaken before (count + 1) occurrences = untaken before count (occurrences.erase first) := by
        rw [untaken, untaken, taken_succ, nodup.erase_eq_filter, List.filter_filter]
        refine List.filter_congr fun other _ => ?_
        by_cases same : other = first <;> simp [same]
      simp only [takeExtremes, finds.extreme_eq member ahead, map_erase placed member ahead, ih placed', taken_succ,
        untaken_succ, List.map_cons]

/-- Taken occurrences show the values that a sorted list begins with. -/
theorem Finds.map_taken (finds : Finds before extreme) :
    (taken before count occurrences).map Prod.fst = ((occurrences.map Prod.fst).mergeSort before).take count := by
  have perm : ((occurrences.mergeSort (earlier before)).map Prod.fst).Perm ((occurrences.map Prod.fst).mergeSort before) :=
    ((List.mergeSort_perm _ _).map _).trans (List.mergeSort_perm _ _).symm
  have sorted : ((occurrences.mergeSort (earlier before)).map Prod.fst).Pairwise (before · · = true) := by
    refine List.pairwise_map.mpr ((finds.sorted_pairwise occurrences).imp fun order => ?_)
    rw [earlier, Bool.and_eq_true] at order
    exact order.1
  rw [taken, List.map_take]
  congr 1
  exact perm.eq_of_pairwise (fun a b _ _ => finds.antisymm a b) sorted (List.pairwise_mergeSort finds.trans finds.total _)

/-- Nothing is lost. -/
theorem taken_untaken_perm (before : UInt32 → UInt32 → Bool) (count : Nat) (placed : Placed occurrences) :
    (taken before count occurrences ++ untaken before count occurrences).Perm occurrences := by
  have sorted : (occurrences.mergeSort (earlier before)).Perm occurrences := List.mergeSort_perm _ _
  have part : (taken before count occurrences).Sublist (occurrences.mergeSort (earlier before)) := List.take_sublist _ _
  have nodup : occurrences.Nodup := placed.imp fun less same => by simp [same] at less
  have inside : (occurrences.filter (· ∈ taken before count occurrences)).Perm (taken before count occurrences) := by
    refine (List.perm_ext_iff_of_nodup (nodup.filter _) ((sorted.nodup_iff.mpr nodup).sublist part)).mpr fun other => ?_
    simp only [List.mem_filter, decide_eq_true_eq, and_iff_right_iff_imp]
    exact fun member => sorted.subset (part.subset member)
  refine (inside.symm.append_right _).trans ?_
  simpa [untaken] using List.filter_append_perm (· ∈ taken before count occurrences) occurrences

namespace Finds

/-- What is taken, and what is left of it, is what a sorted list begins with, and what it goes on with. -/
theorem takeExtremes_sorted (finds : Finds before extreme) (count : Nat) (values : List UInt32) :
    (takeExtremes extreme count values).1 = (values.mergeSort before).take count ∧
      (takeExtremes extreme count values).2.Perm ((values.mergeSort before).drop count) := by
  have placed := placed_zipIdx values
  have same := finds.takeExtremes_map count placed
  have perm := (taken_untaken_perm before count placed).map Prod.fst
  rw [List.map_append, finds.map_taken, List.zipIdx_map_fst] at perm
  rw [List.zipIdx_map_fst, finds.map_taken, List.zipIdx_map_fst] at same
  rw [same]
  refine ⟨rfl, (List.perm_append_left_iff ((values.mergeSort before).take count)).mp ?_⟩
  rw [List.take_append_drop]
  exact perm.trans (List.mergeSort_perm _ _).symm

theorem takeExtremes_perm (finds : Finds before extreme) (count : Nat) (values : List UInt32) :
    ((takeExtremes extreme count values).1 ++ (takeExtremes extreme count values).2).Perm values := by
  obtain ⟨same, perm⟩ := finds.takeExtremes_sorted count values
  rw [same]
  refine (perm.append_left _).trans ?_
  rw [List.take_append_drop]
  exact List.mergeSort_perm _ _

theorem takeExtremes_before (finds : Finds before extreme) {value other : UInt32}
    (member : value ∈ (takeExtremes extreme count values).1) (other_left : other ∈ (takeExtremes extreme count values).2) :
    before value other = true := by
  obtain ⟨same, perm⟩ := finds.takeExtremes_sorted count values
  have sorted := List.pairwise_mergeSort finds.trans finds.total values
  rw [← List.take_append_drop count (values.mergeSort before), List.pairwise_append] at sorted
  exact sorted.2.2 value (same ▸ member) other (perm.subset other_left)

end Finds

private theorem sorted_reverse (values : List UInt32) :
    values.mergeSort (· ≥ ·) = (values.mergeSort (· ≤ ·)).reverse := by
  have perm : (values.mergeSort (· ≥ ·)).Perm (values.mergeSort (· ≤ ·)).reverse :=
    (List.mergeSort_perm _ _).trans ((List.mergeSort_perm _ _).symm.trans (List.reverse_perm _).symm)
  refine perm.eq_of_pairwise (fun a b _ _ => finds_max.antisymm a b) ?_ ?_
  · exact List.pairwise_mergeSort finds_max.trans finds_max.total values
  · exact List.pairwise_reverse.mpr (List.pairwise_mergeSort finds_min.trans finds_min.total values)

/-- The greatest values of a list are still there when the least have been taken, if there are enough. -/
theorem greatest_left (enough : lowest + highest ≤ values.length) :
    ((takeExtremes List.min? lowest values).2.mergeSort (· ≥ ·)).take highest =
      (values.mergeSort (· ≥ ·)).take highest := by
  obtain ⟨-, perm⟩ := finds_min.takeExtremes_sorted lowest values
  have left : (takeExtremes List.min? lowest values).2.mergeSort (· ≥ ·) =
      ((values.mergeSort (· ≤ ·)).drop lowest).reverse := by
    refine ((List.mergeSort_perm _ _).trans (perm.trans (List.reverse_perm _).symm)).eq_of_pairwise
      (fun a b _ _ => finds_max.antisymm a b) (List.pairwise_mergeSort finds_max.trans finds_max.total _) ?_
    have sorted := List.pairwise_mergeSort finds_min.trans finds_min.total values
    exact List.pairwise_reverse.mpr (sorted.sublist (List.drop_sublist _ _))
  rw [left, sorted_reverse, List.reverse_drop, List.take_take, List.length_mergeSort, Nat.min_eq_left (by omega)]

theorem length_dropped (enough : lowest + highest ≤ values.length) :
    (dropExtremes lowest highest values).2.length = lowest + highest := by
  have low := (finds_min.takeExtremes_sorted lowest values).1
  have high := (finds_max.takeExtremes_sorted highest (takeExtremes List.min? lowest values).2).1
  rw [greatest_left enough] at high
  simp only [dropExtremes, low, high, List.length_append, List.length_take, List.length_mergeSort]
  omega

theorem dropExtremes_perm (lowest highest : Nat) (values : List UInt32) :
    ((dropExtremes lowest highest values).2 ++ (dropExtremes lowest highest values).1).Perm values := by
  have low := finds_min.takeExtremes_perm lowest values
  have high := finds_max.takeExtremes_perm highest (takeExtremes List.min? lowest values).2
  dsimp only [dropExtremes]
  rw [List.append_assoc]
  exact (high.append_left _).trans low

/-- The occurrences that are dropped: first the lowest, of equal ones those that stand first, and then the highest of
those that are left, again those that stand first. -/
def droppedOccurrences (lowest highest : Nat) (values : List UInt32) : List (UInt32 × Nat) :=
  taken (· ≤ ·) lowest values.zipIdx ++ taken (· ≥ ·) highest (untaken (· ≤ ·) lowest values.zipIdx)

theorem dropExtremes_occurrences (lowest highest : Nat) (values : List UInt32) : dropExtremes lowest highest values =
    ((values.zipIdx.filter (· ∉ droppedOccurrences lowest highest values)).map Prod.fst,
      (droppedOccurrences lowest highest values).map Prod.fst) := by
  have placed := placed_zipIdx values
  have placed' : Placed (untaken (· ≤ ·) lowest values.zipIdx) := placed.sublist List.filter_sublist
  have low := finds_min.takeExtremes_map lowest placed
  have high := finds_max.takeExtremes_map highest placed'
  rw [List.zipIdx_map_fst] at low
  have left : values.zipIdx.filter (· ∉ droppedOccurrences lowest highest values) =
      untaken (· ≥ ·) highest (untaken (· ≤ ·) lowest values.zipIdx) := by
    rw [untaken, untaken, List.filter_filter]
    refine List.filter_congr fun other _ => ?_
    simp [droppedOccurrences, untaken, Bool.and_comm]
  rw [left]
  simp only [dropExtremes, low, high, droppedOccurrences, List.map_append]

/-- What is dropped by a rule and what it keeps. -/
structure Selected (lowest highest : Nat) (values kept dropped : List UInt32) : Prop where
  extremes : dropped = (values.mergeSort (· ≤ ·)).take lowest ++ (values.mergeSort (· ≥ ·)).take highest
  occurrences : dropped = (droppedOccurrences lowest highest values).map Prod.fst
  others : kept = (values.zipIdx.filter (· ∉ droppedOccurrences lowest highest values)).map Prod.fst
  whole : (kept ++ dropped).Perm values
  above : ∀ value ∈ kept, ∀ low ∈ (values.mergeSort (· ≤ ·)).take lowest, low ≤ value
  below : ∀ value ∈ kept, ∀ high ∈ (values.mergeSort (· ≥ ·)).take highest, value ≤ high
  inOrder : kept.Sublist values

/-- A rule drops the extremes of what was thrown and leaves the rest as it stands. -/
theorem dropExtremes_selects (enough : lowest + highest ≤ values.length) :
    Selected lowest highest values (dropExtremes lowest highest values).1 (dropExtremes lowest highest values).2 := by
  have low := (finds_min.takeExtremes_sorted lowest values).1
  have high := (finds_max.takeExtremes_sorted highest (takeExtremes List.min? lowest values).2).1
  have left := finds_max.takeExtremes_perm highest (takeExtremes List.min? lowest values).2
  have occurrences := dropExtremes_occurrences lowest highest values
  rw [greatest_left enough] at high
  refine ⟨?_, congrArg Prod.snd occurrences, congrArg Prod.fst occurrences, ?_, ?_, ?_, ?_⟩
  · simp only [dropExtremes, low, high]
  · exact List.perm_append_comm.trans (dropExtremes_perm lowest highest values)
  · intro value kept extreme dropped
    rw [← low] at dropped
    simpa using finds_min.takeExtremes_before dropped (left.subset (List.mem_append_right _ kept))
  · intro value kept extreme dropped
    rw [← high] at dropped
    simpa using finds_max.takeExtremes_before dropped kept
  · rw [congrArg Prod.fst occurrences]
    simpa using (List.filter_sublist (l := values.zipIdx)).map Prod.fst

theorem dropExtremes_selects_ties : 2 + 1 ≤ [3, 1, 6, 1, 6, 4].length ∧
    Selected 2 1 [3, 1, 6, 1, 6, 4] [3, 6, 4] [1, 1, 6] :=
  ⟨by decide, dropExtremes_selects (by decide)⟩

end DiceNotation.Proofs.Drops

import DiceNotation.Expression.Operation
import DiceNotation.Proofs.IntegerDoubles
import Mathlib.Data.Int.ConditionallyCompleteOrder
import Mathlib.Data.List.MinMax

/-! The greatest and the least of integers. They are looked for among the doubles of the integers, and the first that is
furthest out is answered, so nothing lies further out than it does unless it is the same double. -/

namespace DiceNotation.Proofs.Extremes
open IntegerDoubles

variable {function : Builtin} {values : List Int64} {found : Int64}

def double (value : Int64) : Float := (Number.int value).toFloat

def Wins (function : Builtin) (candidate current : Float) : Prop :=
  match function with
  | .max => current < candidate
  | _ => candidate < current

/-- A value lies no further out than what has been found. -/
def Reaches (function : Builtin) (found value : Int64) : Prop :=
  match function with
  | .max => value ≤ found
  | _ => found ≤ value

def outward (function : Builtin) (integer : Int) : Int :=
  match function with
  | .max => integer
  | _ => -integer

def reach (function : Builtin) (value : Int64) : Int := outward function (closest value.toInt)

section Orders

theorem word_bound (value : Int64) : value.toInt.natAbs < 2 ^ 64 := by
  have least := value.le_toInt
  have most := value.toInt_lt
  omega

theorem wins_iff {candidate current : Int64} :
    Wins function (double candidate) (double current) ↔ reach function current < reach function candidate := by
  have above := ofInt_lt (word_bound current) (word_bound candidate)
  have below := ofInt_lt (word_bound candidate) (word_bound current)
  cases function with
  | max => exact above
  | abs | min => exact below.trans neg_lt_neg_iff.symm

theorem same_double {value value' : Int64} (same : reach function value = reach function value') :
    (double value == double value') = true := by
  refine (ofInt_beq (word_bound value) (word_bound value')).mpr ?_
  cases function with
  | max => exact same
  | abs | min => exact neg_inj.mp same

theorem reaches_iff {value : Int64} :
    Reaches function found value ↔ outward function value.toInt ≤ outward function found.toInt := by
  cases function with
  | max => exact Int64.le_iff_toInt_le
  | abs | min => exact Int64.le_iff_toInt_le.trans neg_le_neg_iff.symm

theorem reach_mono {value : Int64} (le : outward function value.toInt ≤ outward function found.toInt) :
    reach function value ≤ reach function found := by
  cases function with
  | max => exact closest_mono le
  | abs | min => exact neg_le_neg (closest_mono (neg_le_neg_iff.mp le))

end Orders

section Folds

def pick (function : Builtin) (current candidate : Int64) : Int64 :=
  if reach function current < reach function candidate then candidate else current

theorem further_int (current candidate : Int64) :
    function.further (.int current) (.int candidate) = .int (pick function current candidate) := by
  rw [pick, apply_ite Number.int]
  cases function with
  | max => exact if_congr (@wins_iff .max candidate current) rfl rfl
  | abs => exact if_congr (@wins_iff .abs candidate current) rfl rfl
  | min => exact if_congr (@wins_iff .min candidate current) rfl rfl

theorem argmax_cons_eq_foldl {α : Type} (key : α → Int) (first : α) (rest : List α) :
    (first :: rest).argmax key =
      some (rest.foldl (fun current candidate => if key current < key candidate then candidate else current) first) := by
  induction rest using List.reverseRecOn with
  | nil => rfl
  | append_singleton others last ih =>
    rw [← List.cons_append, List.argmax_concat, ih, List.foldl_concat]
    dsimp only
    rw [apply_ite some]

theorem apply_int (extreme : function ≠ .abs) (two : 2 ≤ values.length) :
    ∃ found ∈ values.argmax (reach function), function.apply (values.map .int) = .ok (.int found) := by
  cases values with
  | nil => simp at two
  | cons first rest =>
    cases rest with
    | nil => simp at two
    | cons second others =>
      refine ⟨(second :: others).foldl (pick function) first, argmax_cons_eq_foldl _ _ _, ?_⟩
      have folded : ((second :: others).map Number.int).foldl function.further (.int first) =
          .int ((second :: others).foldl (pick function) first) := by
        rw [List.foldl_map]
        exact List.foldl_hom Number.int further_int
      cases function with
      | abs => contradiction
      | max | min => exact congrArg Except.ok folded

end Folds

/-- Of the values whose doubles lie furthest out this is the first. Only a value with the same double can lie further out
itself, and none does as long as all values are doubles. -/
structure Extreme (function : Builtin) (values : List Int64) (found : Int64) : Prop where
  first : ∃ before behind, values = before ++ found :: behind ∧ ∀ value ∈ before, Wins function (double found) (double value)
  furthest : ∀ value ∈ values, ¬ Wins function (double value) (double found)
  near : ∀ value ∈ values, Reaches function found value ∨ (double value == double found) = true
  exact : (∀ value ∈ values, value.toInt.natAbs ≤ 2 ^ 53) → ∀ value ∈ values, Reaches function found value

theorem extreme_of_argmax (extreme : found ∈ values.argmax (reach function)) : Extreme function values found := by
  obtain ⟨member, most, earliest⟩ := List.mem_argmax_iff.mp extreme
  refine ⟨?_, fun value inside wins => ?_, fun value inside => ?_, fun small value inside => ?_⟩
  · obtain ⟨before, behind, rfl, absent⟩ := List.eq_append_cons_of_mem member
    refine ⟨before, behind, rfl, fun value ahead => wins_iff.mpr (Int.not_le.mp fun late => ?_)⟩
    have places := earliest value (List.mem_append_left _ ahead) late
    have place := List.idxOf_lt_length_of_mem ahead
    rw [List.idxOf_append_of_notMem absent, List.idxOf_append_of_mem ahead] at places
    omega
  · exact Int.not_lt.mpr (most value inside) (wins_iff.mp wins)
  · by_cases reached : Reaches function found value
    · exact .inl reached
    · have beyond : reach function found ≤ reach function value :=
        reach_mono (Int.le_of_lt (Int.not_le.mp (mt reaches_iff.mpr reached)))
      exact .inr (same_double (Int.le_antisymm (most value inside) beyond))
  · have order := most value inside
    rw [reach, reach, closest_small (small value inside), closest_small (small found member)] at order
    exact reaches_iff.mpr order

/-- The greatest and the least of integers are found among their doubles. -/
theorem apply_extreme (extreme : function ≠ .abs) (two : 2 ≤ values.length) :
    ∃ found ∈ values, function.apply (values.map .int) = .ok (.int found) ∧ Extreme function values found := by
  obtain ⟨found, argmax, answer⟩ := apply_int extreme two
  exact ⟨found, List.argmax_mem argmax, answer, extreme_of_argmax argmax⟩

theorem apply_extreme_least : Builtin.min ≠ .abs ∧ 2 ≤ [(9007199254740993 : Int64), 9007199254740992, -1, 5].length ∧
    ∃ found ∈ [(9007199254740993 : Int64), 9007199254740992, -1, 5],
      Builtin.min.apply [.int 9007199254740993, .int 9007199254740992, .int (-1), .int 5] = .ok (.int found) ∧
        Extreme .min [9007199254740993, 9007199254740992, -1, 5] found :=
  ⟨by decide, by decide, apply_extreme (by decide) (by decide)⟩

/-- Integers next to each other can be one double, and then the first is answered. -/
theorem neighbours_mistaken :
    Builtin.max.apply [.int 9007199254740992, .int 9007199254740993] = .ok (.int 9007199254740992) ∧
    Builtin.min.apply [.int 9007199254740993, .int 9007199254740992] = .ok (.int 9007199254740993) ∧
    (9007199254740992 : Int64) < 9007199254740993 := by
  have greatest : pick .max 9007199254740992 9007199254740993 = 9007199254740992 := by decide +kernel
  have least : pick .min 9007199254740993 9007199254740992 = 9007199254740993 := by decide +kernel
  refine ⟨congrArg Except.ok ?_, congrArg Except.ok ?_, by decide⟩
  · exact (further_int _ _).trans (congrArg Number.int greatest)
  · exact (further_int _ _).trans (congrArg Number.int least)

end DiceNotation.Proofs.Extremes

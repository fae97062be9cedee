import DiceNotation.Text.Lowercase

/-! Lower case of characters. A run of the table maps its codes to others that no run maps any further, so that lower case is
its own lower case. -/

namespace DiceNotation.Proofs.LowerCase
open Text

variable {c d : Char}

def low (run : CaseRun) : Nat := (run.first + run.offset).toNat

def high (run : CaseRun) : Nat := (run.last + run.offset).toNat

def images (run : CaseRun) : List Nat :=
  (List.range' run.first ((run.last - run.first) / run.step + 1) run.step).map fun code : Nat => (code + run.offset).toNat

/-- No code of a list that lies from `low` to `high` is mapped by the run that it falls to. Most runs do not reach into these
codes at all, and the others go past them by their step. -/
def unmapped (low high : Nat) (codes : List Nat) : List CaseRun → Bool
  | [] => true
  | run :: rest =>
    (Nat.blt high run.first || Nat.blt run.last low || codes.all fun code => (code - run.first) % run.step != 0) &&
      (Nat.ble high run.last || unmapped low high codes rest)

private theorem runs_nonneg : ∀ run ∈ caseRuns, 0 ≤ run.first + run.offset := by
  decide +kernel

private theorem runs_unmapped : ∀ run ∈ caseRuns, unmapped (low run) (high run) (images run) caseRuns = true := by
  decide +kernel

private theorem runs_undotted : ∀ run ∈ caseRuns, high run < '\u0130'.toNat ∨ '\u0130'.toNat < low run := by
  decide +kernel

theorem find?_unmapped {low high code : Nat} {codes : List Nat} {runs : List CaseRun} {run : CaseRun}
    (free : unmapped low high codes runs = true) (member : code ∈ codes) (above : low ≤ code) (below : code ≤ high)
    (found : runs.find? (code ≤ ·.last) = some run) : ¬ (run.first ≤ code ∧ (code - run.first) % run.step = 0) := by
  induction runs with
  | nil => simp at found
  | cons first rest ih =>
    simp only [unmapped, Bool.and_eq_true, Bool.or_eq_true, Nat.blt_eq, Nat.ble_eq, List.all_eq_true, bne_iff_ne] at free
    obtain ⟨here, there⟩ := free
    by_cases reaches : code ≤ first.last
    · rw [List.find?_cons_of_pos (by simpa using reaches), Option.some.injEq] at found
      subst found
      rintro ⟨inside, exact⟩
      rcases here with (outside | outside) | stepped
      · omega
      · omega
      · exact stepped code member exact
    · rw [List.find?_cons_of_neg (by simpa using reaches)] at found
      exact ih (there.resolve_left (by omega)) found

theorem code_ofNat {n : Nat} (valid : n.isValidChar) : (Char.ofNat n).toNat = n := by
  rw [Char.ofNat, dif_pos valid]
  rfl

/-- A character is mapped to another one by a run, or not at all. -/
theorem lowerChar_cases (c : Char) :
    lowerChar c = c ∨ ∃ run ∈ caseRuns, ∃ code ∈ images run, low run ≤ code ∧ code ≤ high run ∧ lowerChar c = Char.ofNat code := by
  rw [lowerChar]
  split
  next run found =>
    rw [CaseRun.apply]
    split
    next inside =>
      have member := List.mem_of_find?_eq_some found
      have last : c.toNat ≤ run.last := by simpa using List.find?_some found
      have nonneg := runs_nonneg run member
      refine .inr ⟨run, member, (c.toNat + run.offset).toNat, ?_, ?_, ?_, rfl⟩
      · refine List.mem_map.mpr ⟨c.toNat, List.mem_range'.mpr ⟨(c.toNat - run.first) / run.step, ?_, ?_⟩, rfl⟩
        · exact Nat.lt_succ_of_le (Nat.div_le_div_right (by omega))
        · have whole := Nat.div_add_mod (c.toNat - run.first) run.step
          omega
      · simp only [low]
        omega
      · simp only [high]
        omega
    next => exact .inl rfl
  next => exact .inl rfl

/-- Lower case stays as it is. -/
theorem lowerChar_lowerChar (c : Char) : lowerChar (lowerChar c) = lowerChar c := by
  obtain same | ⟨run, member, code, among, above, below, image⟩ := lowerChar_cases c
  · rw [same, same]
  · rw [image]
    by_cases valid : code.isValidChar
    · rw [lowerChar, code_ofNat valid]
      split
      next other found =>
        have free := find?_unmapped (runs_unmapped run member) among above below found
        rw [CaseRun.apply, code_ofNat valid, if_neg free]
      next => rfl
    · rw [Char.ofNat, dif_neg valid]
      decide

theorem lowerChar_undotted (undotted : c ≠ '\u0130') : lowerChar c ≠ '\u0130' := by
  obtain same | ⟨run, member, code, -, above, below, image⟩ := lowerChar_cases c
  · rwa [same]
  · rw [image]
    intro dotted
    have outside := runs_undotted run member
    by_cases valid : code.isValidChar
    · rw [← dotted, code_ofNat valid] at outside
      omega
    · rw [Char.ofNat, dif_neg valid] at dotted
      revert dotted
      decide

theorem lowercase_lowercase (member : c ∈ lowercase d) : lowercase c = [c] := by
  rw [lowercase] at member
  split at member
  next =>
    simp only [List.mem_cons, List.not_mem_nil, or_false] at member
    rcases member with rfl | rfl <;> decide
  next undotted =>
    rw [List.mem_singleton.mp member, lowercase, if_neg (lowerChar_undotted undotted), lowerChar_lowerChar]

end DiceNotation.Proofs.LowerCase

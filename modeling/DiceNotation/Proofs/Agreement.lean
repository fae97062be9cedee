import DiceNotation.Proofs.ParallelReadings

/-! Readers of different sources that see the same tokens. They give the same answer and go on seeing the
same; only the places of their faults may differ. -/

namespace DiceNotation.Proofs.Agreement
open Token Lookahead TokenSequence Reading ParallelReadings
open Expression (Fault)

variable {σ τ : Type} [Source σ] [LawfulSource σ] [Source τ] [LawfulSource τ]

def SameTokens (before : Lookahead σ) (before' : Lookahead τ) : Prop :=
  ∃ tokens : List Token, Sees before tokens ∧ Sees before' tokens

theorem sameTokens_views : Views (SameTokens : Lookahead σ → Lookahead τ → Prop) := by
  rintro before before' ⟨tokens, sees, sees'⟩
  rw [sees.current, sees'.current, sees.following, sees'.following]
  exact ⟨rfl, rfl⟩

theorem advance_agrees : Follows SameTokens (fun _ => True) (advance : Reading σ Unit) (advance : Reading τ Unit) where
  back _ _ := trivial
  same := by
    rintro before before' ⟨tokens, sees, sees'⟩ -
    obtain ⟨after, moved, remaining⟩ := sees.advance
    obtain ⟨after', moved', remaining'⟩ := sees'.advance
    rw [moved, moved']
    exact ⟨rfl, tokens.tail, remaining, remaining'⟩

/-- What a source is read as depends on its tokens alone, the places of faults apart. -/
theorem ofSource_agrees {source : σ} {source' : τ} {tokens : List Token} (lexed : all source = .ok tokens)
    (lexed' : all source' = .ok tokens) :
    (Expression.ofSource source).mapError (·.fault) = (Expression.ofSource source').mapError (·.fault) := by
  by_cases empty : tokens = []
  · subst empty
    rw [Expression.ofSource, Expression.ofSource, ofSource_empty lexed, ofSource_empty lexed']
  · obtain ⟨reader, opened, sees⟩ := Sees.ofSource lexed empty
    obtain ⟨reader', opened', sees'⟩ := Sees.ofSource lexed' empty
    have : Nonempty τ := ⟨source'⟩
    have same := (whole_follows sameTokens_views advance_agrees).same reader reader' ⟨tokens, sees, sees'⟩ trivial
    rw [Expression.ofSource, Expression.ofSource, opened, opened']
    rcases ran : outcome whole reader with ⟨fault | tree, after⟩ <;> rw [ran] at same
    · simp only [expression_of_error ran, expression_of_error (Prod.ext same.answer rfl)]
      rfl
    · simp only [expression_of_yields ran, expression_of_yields (Prod.ext same.answer rfl)]

end DiceNotation.Proofs.Agreement

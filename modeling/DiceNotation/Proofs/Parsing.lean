import DiceNotation.Proofs.GrammarCompleteness
import DiceNotation.Proofs.GrammarSoundness

/-! Reading a source against the grammar. What a source is read as depends on its tokens alone: it is the
one tree that they have, or a fault. -/

namespace DiceNotation.Proofs.Parsing
open Token TokenSequence Grammar GrammarCompleteness GrammarSoundness

variable {σ : Type} [Source σ] [LawfulSource σ] {source : σ} {tokens : List Token} {tree : Expression}

/-- The trees that are answered are those of sentences that are not too deep. -/
theorem ofSource_ok_iff (lexed : all source = .ok tokens) :
    Expression.ofSource source = .ok tree ↔ ∃ levels, Derives .expression levels tokens tree ∧
      Fits maxDepth levels tree := by
  constructor
  · intro accepted
    obtain ⟨tokens', lexed', levels, derives⟩ := ofSource_sound accepted
    obtain rfl := Except.ok.inj (lexed.symm.trans lexed')
    refine ⟨levels, derives, ?_⟩
    by_contra deep
    obtain ⟨place, refused⟩ := (ofSource_complete lexed derives).2 deep
    rw [accepted] at refused
    contradiction
  · intro ⟨levels, derives, fits⟩
    exact (ofSource_complete lexed derives).1 fits

/-- Too deep a tree is the only reason to refuse a sentence. -/
theorem ofSource_sentence (lexed : all source = .ok tokens) (sentence : Sentence tokens tree) :
    Expression.ofSource source = .ok tree ∨ ∃ place, Expression.ofSource source = .error ⟨.tooDeep maxDepth, some place⟩ := by
  obtain ⟨levels, derives⟩ := sentence
  obtain ⟨taken, refused⟩ := ofSource_complete lexed derives
  by_cases fits : Fits maxDepth levels tree
  · exact Or.inl (taken fits)
  · exact Or.inr (refused fits)

theorem ofText_reads_grammar {text : String} (lexed : all text.toList = .ok tokens) :
    (∀ tree, Sentence tokens tree → Expression.ofText text = .ok tree ∨
      ∃ place, Expression.ofText text = .error ⟨.tooDeep maxDepth, place⟩) ∧
    ((¬ ∃ tree, Sentence tokens tree) → ∃ failure, Expression.ofText text = .error failure) ∧
    ∀ tree, Expression.ofText text = .ok tree → Sentence tokens tree ∧ ∀ other, Sentence tokens other → other = tree := by
  refine ⟨fun tree sentence => ?_, fun none => ?_, fun tree accepted => ?_⟩
  · obtain accepted | ⟨place, refused⟩ := ofSource_sentence lexed sentence
    · exact Or.inl accepted
    · exact Or.inr ⟨some place, refused⟩
  · cases answer : Expression.ofText text with
    | error failure => exact ⟨failure, rfl⟩
    | ok tree =>
      obtain ⟨levels, derives, -⟩ := (ofSource_ok_iff lexed).mp answer
      exact absurd ⟨tree, levels, derives⟩ none
  · obtain ⟨levels, derives, -⟩ := (ofSource_ok_iff lexed).mp accepted
    refine ⟨⟨levels, derives⟩, fun other sentence => ?_⟩
    obtain accepted' | ⟨place, refused⟩ := ofSource_sentence lexed sentence
    · exact Except.ok.inj (accepted'.symm.trans accepted)
    · exact absurd (refused.symm.trans accepted) (by simp)

private theorem differences_lexed : all "9-4-3".toList =
    .ok [.number (.int 9), .minus, .number (.int 4), .minus, .number (.int 3)] :=
  all_of_next rfl rfl (all_of_next rfl rfl (all_of_next rfl rfl (all_of_next rfl rfl (all_of_next rfl rfl
    (all_end rfl) (by simp)) (by simp)) (by simp)) (by simp)) (by simp)

private theorem differences_sentence : Sentence [.number (.int 9), .minus, .number (.int 4), .minus, .number (.int 3)]
    (.binary .subtract (.binary .subtract (.literal (.int 9)) (.literal (.int 4))) (.literal (.int 3))) := by
  have term (value : Number) : Derives .term 1 [.number value] (.literal value) := (Derives.number value).widen (by decide)
  have additive : Operator.subtract ∈ [.add, .subtract] := by decide
  have first := Derives.sum additive (term (.int 9)).ofTerm (term (.int 4))
  exact ⟨_, Derives.sum additive first (term (.int 3))⟩

theorem ofText_reads_differences :
    all "9-4-3".toList = .ok [.number (.int 9), .minus, .number (.int 4), .minus, .number (.int 3)] ∧
    (Expression.ofText "9-4-3" =
        .ok (.binary .subtract (.binary .subtract (.literal (.int 9)) (.literal (.int 4))) (.literal (.int 3))) ∨
      ∃ place, Expression.ofText "9-4-3" = .error ⟨.tooDeep maxDepth, place⟩) :=
  ⟨differences_lexed, (ofText_reads_grammar differences_lexed).1 _ differences_sentence⟩

end DiceNotation.Proofs.Parsing

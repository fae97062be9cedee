import DiceNotation.Proofs.Grammar
import DiceNotation.Proofs.Reading

/-! Whatever a reading takes is a phrase with the tree that it answers. Nothing is assumed of the rest
of the source, which is seen from behind: once the end is reached, all of it has been. -/

namespace DiceNotation.Proofs.GrammarSoundness
open Token Lookahead TokenSequence Reading Grammar

variable {σ : Type} [Source σ] [LawfulSource σ]
variable {start before between next after : Lookahead σ} {phrase phrase' : List Token}

/-- Nothing is left unread behind the end. -/
def Settled (reader : Lookahead σ) : Prop := reader.following = .eof → all reader.unread = .ok []

/-- A phrase stands from the token that one reader looks at up to the one that the other looks at. -/
structure Spans (before : Lookahead σ) (phrase : List Token) (after : Lookahead σ) : Prop where
  begins : before.current ≠ .eof
  ends : after.current ≠ .eof
  last : phrase.getLast? = some after.current
  shrinks : Source.size after.unread ≤ Source.size before.unread
  settled : Settled before → Settled after
  sees : ∀ rest, Sees after (after.current :: rest) → Sees before (phrase ++ rest)

private theorem advance_settled (moved : Yields advance before () after) : Settled after := by
  obtain ⟨found, -, -⟩ := yields_advance.mp moved
  intro ends
  rw [ends] at found
  exact all_end (LawfulSource.ended found)

private theorem advance_shrinks (moved : Yields advance before () after) :
    Source.size after.unread ≤ Source.size before.unread := by
  obtain ⟨found, -, -⟩ := yields_advance.mp moved
  have shrinks := LawfulSource.shrinks before.unread
  rwa [found] at shrinks

omit [LawfulSource σ] in
private theorem advance_current (moved : Yields advance before () after) : after.current = before.following :=
  (yields_advance.mp moved).2.1

namespace Spans

theorem here {reader : Lookahead σ} (proper : reader.current ≠ .eof) : Spans reader [reader.current] reader :=
  ⟨proper, proper, rfl, Nat.le_refl _, id, fun _ sees => sees⟩

theorem append (first : Spans before phrase between) (moved : Yields advance between () next)
    (second : Spans next phrase' after) : Spans before (phrase ++ phrase') after where
  begins := first.begins
  ends := second.ends
  last := by
    rw [List.getLast?_append, second.last]
    rfl
  shrinks := second.shrinks.trans ((advance_shrinks moved).trans first.shrinks)
  settled _ := second.settled (advance_settled moved)
  sees rest sees := by
    rw [List.append_assoc]
    exact first.sees _ (Sees.of_advance moved first.ends (second.sees rest sees))

theorem cons {token : Token} (current : before.current = token) (proper : token ≠ .eof)
    (moved : Yields advance before () next) (rest : Spans next phrase after) : Spans before (token :: phrase) after := by
  subst current
  exact (here proper).append moved rest

end Spans

/-- A phrase held by a precedence has been read, and no operator goes on with it. -/
structure Reads (precedence : Precedence) (before : Lookahead σ) (grown : Grown) (after : Lookahead σ) : Prop where
  measured : grown.height = height grown.tree
  complete : grip after.following ≤ precedence.rank
  phrase : ∃ (layer : Layer) (levels : Nat) (phrase : List Token),
    precedence.rank < layer.rank ∧ Derives layer levels phrase grown.tree ∧ Spans before phrase after

variable {operand : Precedence → Reading σ Grown}

def Sound (operand : Precedence → Reading σ Grown) : Prop :=
  ∀ {precedence before grown after}, Yields (operand precedence) before grown after → Reads precedence before grown after

private theorem expectClosing_sound (read : Yields expectClosing before () after) :
    Yields advance before () after ∧ Spans after [.rightParenthesis] after := by
  simp only [expectClosing, yields_get_bind] at read
  split at read
  next closing =>
    have current : after.current = .rightParenthesis := (advance_current read).trans closing
    refine ⟨read, ?_⟩
    rw [← current]
    exact Spans.here (by simp [current])
  next => simp at read

structure ReadsArguments (before : Lookahead σ) (parts : List Part) (after : Lookahead σ) : Prop where
  each : ∀ part ∈ parts, Derives .expression part.levels part.tokens part.tree
  spans : ∃ next, Yields advance before () next ∧ Spans next (listed parts ++ [.rightParenthesis]) after

private theorem argumentRounds_sound (sound : Sound operand) {rounds height : Nat} {trees : List Expression}
    {read : List Expression × Nat} (yields : Yields (argumentRounds operand rounds (trees, height)) before read after) :
    ∃ parts, parts ≠ [] ∧ ReadsArguments before parts after ∧
      read = (trees ++ parts.map Part.tree, max height (tallest (parts.map Part.tree))) := by
  induction rounds generalizing before trees height with
  | zero => simp [argumentRounds] at yields
  | succ rounds ih =>
    rw [argumentRounds, yields_bind] at yields
    obtain ⟨_, next, moved, yields⟩ := yields
    rw [yields_bind] at yields
    obtain ⟨argument, between, taken, yields⟩ := yields
    rw [yields_get_bind] at yields
    obtain ⟨measured, -, layer, levels, tokens, above, derives, spans⟩ := sound taken
    have derives : Derives .expression levels tokens argument.tree := derives.widen above
    split at yields
    next comma =>
      rw [yields_bind] at yields
      obtain ⟨_, atComma, moved', yields⟩ := yields
      obtain ⟨parts, some, ⟨each, last, moved'', spans'⟩, rfl⟩ := ih yields
      refine ⟨⟨levels, tokens, argument.tree⟩ :: parts, by simp, ⟨?_, next, moved, ?_⟩, ?_⟩
      · intro part member
        rcases List.mem_cons.mp member with rfl | member
        · exact derives
        · exact each part member
      · rw [listed_cons _ some, List.append_assoc]
        exact spans.append moved' (spans'.cons ((advance_current moved').trans comma) (by simp) moved'')
      · simp [tallest, measured, Nat.max_assoc]
    next =>
      rw [yields_bind] at yields
      obtain ⟨_, closed, closing, yields⟩ := yields
      obtain ⟨rfl, rfl⟩ := yields_pure.mp yields
      obtain ⟨moved', closing⟩ := expectClosing_sound closing
      refine ⟨[⟨levels, tokens, argument.tree⟩], by simp, ⟨by simpa using derives, next, moved, ?_⟩, ?_⟩
      · exact spans.append moved' closing
      · simp [addArgument, tallest, measured]

private theorem arguments_sound (sound : Sound operand) {read : List Expression × Nat}
    (yields : Yields (arguments operand) before read after) :
    ∃ parts, ReadsArguments before parts after ∧ read = (parts.map Part.tree, tallest (parts.map Part.tree)) := by
  simp only [arguments, yields_get_bind] at yields
  split at yields
  next closing =>
    rw [yields_bind] at yields
    obtain ⟨_, _, moved, yields⟩ := yields
    obtain ⟨rfl, rfl⟩ := yields_pure.mp yields
    have current : after.current = .rightParenthesis := (advance_current moved).trans closing
    refine ⟨[], ⟨by simp, after, moved, ?_⟩, rfl⟩
    rw [listed, List.nil_append, ← current]
    exact Spans.here (by simp [current])
  next =>
    rw [yields_roundLimit_bind] at yields
    obtain ⟨parts, -, reads, rfl⟩ := argumentRounds_sound sound yields
    exact ⟨parts, reads, by simp⟩

structure ReadsFactor (before : Lookahead σ) (grown : Grown) (after : Lookahead σ) : Prop where
  measured : grown.height = height grown.tree
  phrase : ∃ (levels : Nat) (phrase : List Token), Derives .factor levels phrase grown.tree ∧ Spans before phrase after

private theorem signed_sound (sound : Sound operand) (sign : Sign) {grown : Grown} (current : before.current = signToken sign)
    (yields : Yields (signed operand sign) before grown after) : ReadsFactor before grown after := by
  simp only [signed, yields_bind, yields_lift, above_ok, yields_pure] at yields
  obtain ⟨_, next, moved, inner, last, taken, _, _, ⟨⟨_, rfl⟩, rfl⟩, rfl, rfl⟩ := yields
  obtain ⟨measured, -, layer, levels, tokens, above, derives, spans⟩ := sound taken
  have derives : Derives .factor levels tokens inner.tree := derives.widen above
  refine ⟨by simp [height, measured], _, _, Derives.signed sign derives, ?_⟩
  exact spans.cons current (by cases sign <;> simp [signToken]) moved

private theorem call_sound (sound : Sound operand) {function : Builtin} {grown : Grown} (current : before.current = .function function)
    (yields : Yields (call operand function) before grown after) : ReadsFactor before grown after := by
  simp only [call, yields_get_bind] at yields
  split at yields
  next opening =>
    simp only [yields_bind, yields_lift, above_ok, yields_pure] at yields
    obtain ⟨_, next, moved, read, last, taken, _, _, ⟨⟨_, rfl⟩, rfl⟩, rfl, rfl⟩ := yields
    obtain ⟨parts, ⟨each, inside, moved', spans⟩, rfl⟩ := arguments_sound sound taken
    have spans' := spans.cons ((advance_current moved).trans opening) (by simp) moved'
    refine ⟨by simp [height], _, _, (Derives.call function each).ofPrimary, ?_⟩
    exact spans'.cons current (by simp) moved
  next => simp at yields

private theorem primary_sound (sound : Sound operand) {grown : Grown} (yields : Yields (primary operand) before grown after) :
    ReadsFactor before grown after := by
  simp only [primary, yields_get_bind] at yields
  split at yields
  next value current =>
    obtain ⟨rfl, rfl⟩ := yields_pure.mp yields
    refine ⟨rfl, 1, [.number value], (Derives.number value).ofPrimary, ?_⟩
    rw [← current]
    exact Spans.here (by simp [current])
  next current => exact signed_sound sound .minus current yields
  next current => exact signed_sound sound .plus current yields
  next current =>
    simp only [yields_bind, yields_pure] at yields
    obtain ⟨_, next, moved, inner, last, taken, _, _, closing, rfl, rfl⟩ := yields
    obtain ⟨measured, -, layer, levels, tokens, above, derives, spans⟩ := sound taken
    have derives : Derives .expression levels tokens grown.tree := derives.widen above
    obtain ⟨moved', closing⟩ := expectClosing_sound closing
    refine ⟨measured, _, _, (Derives.group derives).ofPrimary, ?_⟩
    exact (spans.append moved' closing).cons current (by simp) moved
  next function current => exact call_sound sound current yields
  next => simp at yields

private theorem chain_sound (sound : Sound operand) {precedence : Precedence} {rounds levels : Nat} {left grown : Grown}
    {layer : Layer} (measured : left.height = height left.tree) (above : precedence.rank < layer.rank)
    (derives : Derives layer levels phrase left.tree) (spans : Spans start phrase before)
    (held : grip before.following ≤ layer.rank) (enough : Source.size before.unread < rounds)
    (yields : Yields (chain operand precedence rounds left) before grown after) : Reads precedence start grown after := by
  induction rounds generalizing before left layer levels phrase with
  | zero => omega
  | succ rounds ih =>
    simp only [chain, yields_get_bind] at yields
    split at yields
    next operator found =>
      have token := eq_operatorToken found
      split at yields
      next tighter =>
        simp only [yields_bind, yields_lift, above_ok] at yields
        obtain ⟨_, atOperator, moved, _, next, moved', right, _, taken, _, last, ⟨⟨_, rfl⟩, rfl⟩, yields⟩ := yields
        obtain ⟨measured', complete, inner, levels', tokens', above', derives', spans'⟩ := sound taken
        have current : atOperator.current = operatorToken operator := (advance_current moved).trans token
        have both : Spans start (phrase ++ operatorToken operator :: tokens') last :=
          spans.append moved (spans'.cons current (by cases operator <;> simp [operatorToken]) moved')
        have loose : operator.precedence.rank ≤ layer.rank := by simpa [token] using held
        obtain ⟨outer, rank, joined⟩ := derives.join derives' loose above'
        have shorter : Source.size last.unread < Source.size before.unread := by
          have proper : atOperator.following ≠ .eof := advance_current moved' ▸ spans'.begins
          have first := LawfulSource.shorter (yields_advance.mp moved).1 proper
          have second := advance_shrinks moved'
          have third := spans'.shrinks
          omega
        apply ih ?_ (by rw [rank]; exact tighter) joined both (by rw [rank]; exact complete) (by omega) yields
        simp [height, measured, measured']
      next looser =>
        obtain ⟨rfl, rfl⟩ := yields_pure.mp yields
        exact ⟨measured, by simpa [token] using looser, layer, levels, phrase, above, derives, spans⟩
    next none =>
      obtain ⟨rfl, rfl⟩ := yields_pure.mp yields
      exact ⟨measured, by simp [grip, none], layer, levels, phrase, above, derives, spans⟩

theorem operand_sound (room : Nat) : Sound (Lookahead.operand room : Precedence → Reading σ Grown) := by
  intro precedence before grown after yields
  induction room generalizing precedence before grown after with
  | zero => simp [Lookahead.operand] at yields
  | succ room ih =>
    rw [Lookahead.operand, yields_bind] at yields
    obtain ⟨first, between, taken, yields⟩ := yields
    rw [yields_roundLimit_bind] at yields
    obtain ⟨measured, levels, phrase, derives, spans⟩ := primary_sound ih taken
    apply chain_sound ih measured ?_ derives spans ?_ (Nat.lt_succ_self _) yields
    · cases precedence <;> decide
    · exact (grip_le _).trans (by decide)

/-- All of what is seen has been read, up to its last token. -/
theorem whole_sound {tree : Expression} (settled : Settled before) (yields : Yields whole before tree after) :
    ∃ tokens, Sentence tokens tree ∧ Sees before tokens ∧ tokens.getLast? = some after.current ∧ after.following = .eof := by
  rw [whole, yields_bind] at yields
  obtain ⟨grown, last, taken, yields⟩ := yields
  rw [yields_get_bind] at yields
  split at yields
  next ends =>
    obtain ⟨rfl, rfl⟩ := yields_pure.mp yields
    obtain ⟨-, -, layer, levels, tokens, above, derives, spans⟩ := operand_sound _ taken
    have sees : Sees after (after.current :: []) := ⟨rfl, ends, spans.settled settled ends, by simpa using spans.ends.symm⟩
    refine ⟨tokens, ⟨levels, derives.widen above⟩, ?_, spans.last, ends⟩
    simpa using spans.sees [] sees
  next => simp at yields

private theorem ofSource_settled {source : σ} (opened : Lookahead.ofSource source = .ok before) : Settled before := by
  obtain ⟨unread, -, -, found, -⟩ := ofSource_eq_ok.mp opened
  intro ends
  rw [ends] at found
  exact all_end (LawfulSource.ended found)

/-- A source that is read is a sentence from its first token to its last. -/
theorem ofSource_sound {source : σ} {tree : Expression} (accepted : Expression.ofSource source = .ok tree) :
    ∃ tokens, all source = .ok tokens ∧ Sentence tokens tree := by
  simp only [Expression.ofSource] at accepted
  split at accepted
  · contradiction
  next reader opened =>
    obtain ⟨after, ran⟩ := yields_of_expression accepted
    obtain ⟨tokens, sentence, sees, -⟩ := whole_sound (ofSource_settled opened) ran
    exact ⟨tokens, all_of_ofSource opened sees, sentence⟩

end DiceNotation.Proofs.GrammarSoundness

import DiceNotation.Proofs.TokenSequence

/-! A small logic of readings: what a reading answers and where it leaves the reader, or the fault
that it ends with. A reader that sees tokens has all of its source before it. -/

namespace DiceNotation.Proofs.Reading
open Token Lookahead TokenSequence
open Expression (Fault)

variable {σ : Type} {α β : Type}

def outcome (reading : Reading σ α) (before : Lookahead σ) : Except Fault α × Lookahead σ :=
  reading.run before

def Yields (reading : Reading σ α) (before : Lookahead σ) (value : α) (after : Lookahead σ) : Prop :=
  outcome reading before = (.ok value, after)

def Fails (reading : Reading σ α) (before : Lookahead σ) (fault : Fault) : Prop :=
  ∃ after, outcome reading before = (.error fault, after)

theorem outcome_bind (first : Reading σ α) (next : α → Reading σ β) (before : Lookahead σ) :
    outcome (first >>= next) before =
      match outcome first before with
      | (.ok value, after) => outcome (next value) after
      | (.error fault, after) => (.error fault, after) := by
  simp only [outcome, bind, ExceptT.bind, ExceptT.run, ExceptT.mk, StateT.bind, ExceptT.bindCont]
  rcases first before with ⟨_ | _, after⟩ <;> rfl

theorem outcome_pure (value : α) (before : Lookahead σ) :
    outcome (pure value : Reading σ α) before = (.ok value, before) := rfl

private theorem outcome_get (before : Lookahead σ) :
    outcome (get : Reading σ (Lookahead σ)) before = (.ok before, before) := rfl

theorem outcome_throw (fault : Fault) (before : Lookahead σ) :
    outcome (throw fault : Reading σ α) before = (.error fault, before) := rfl

theorem outcome_lift (answer : Except Fault α) (before : Lookahead σ) :
    outcome (liftM answer : Reading σ α) before = (answer, before) := rfl

theorem yields_bind {first : Reading σ α} {next : α → Reading σ β} {before after : Lookahead σ} {value : β} :
    Yields (first >>= next) before value after ↔
      ∃ middle between, Yields first before middle between ∧ Yields (next middle) between value after := by
  simp only [Yields, outcome_bind]
  rcases outcome first before with ⟨fault | middle, between⟩
  · simp
  · simp only [Prod.mk.injEq, Except.ok.injEq]
    exact ⟨fun rest => ⟨middle, between, ⟨rfl, rfl⟩, rest⟩, by rintro ⟨_, _, ⟨rfl, rfl⟩, rest⟩; exact rest⟩

theorem fails_bind {first : Reading σ α} {next : α → Reading σ β} {before : Lookahead σ} {fault : Fault} :
    Fails (first >>= next) before fault ↔
      Fails first before fault ∨ ∃ middle between, Yields first before middle between ∧ Fails (next middle) between fault := by
  simp only [Fails, Yields, outcome_bind]
  rcases outcome first before with ⟨found | middle, between⟩
  · simp
  · simp only [Prod.mk.injEq, Except.ok.injEq, reduceCtorEq, false_and, exists_false, false_or]
    exact ⟨fun rest => ⟨middle, between, ⟨rfl, rfl⟩, rest⟩, by rintro ⟨_, _, ⟨rfl, rfl⟩, rest⟩; exact rest⟩

section Sequences
variable {first : Reading σ α} {next : α → Reading σ β} {before between after : Lookahead σ} {middle : α} {fault : Fault}

theorem Yields.outcome_bind (yields : Yields first before middle between) :
    outcome (first >>= next) before = outcome (next middle) between := by
  rw [Reading.outcome_bind, yields]

theorem outcome_bind_of_error (failed : outcome first before = (.error fault, after)) :
    outcome (first >>= next) before = (.error fault, after) := by
  rw [Reading.outcome_bind, failed]

theorem outcome_bind_congr {next' : α → Reading σ β}
    (same : ∀ middle between, Yields first before middle between → outcome (next middle) between = outcome (next' middle) between) :
    outcome (first >>= next) before = outcome (first >>= next') before := by
  rw [Reading.outcome_bind, Reading.outcome_bind]
  rcases reached : outcome first before with ⟨fault | middle, between⟩
  · rfl
  · exact same middle between reached

theorem Yields.bind {value : β} (yields : Yields first before middle between)
    (rest : Yields (next middle) between value after) :
    Yields (first >>= next) before value after :=
  yields_bind.mpr ⟨middle, between, yields, rest⟩

theorem Yields.fails (yields : Yields first before middle between) (rest : Fails (next middle) between fault) :
    Fails (first >>= next) before fault :=
  fails_bind.mpr (Or.inr ⟨middle, between, yields, rest⟩)

theorem Fails.bind (fails : Fails first before fault) : Fails (first >>= next) before fault :=
  fails_bind.mpr (Or.inl fails)

end Sequences

@[simp] theorem yields_pure {before after : Lookahead σ} {value found : α} :
    Yields (pure value : Reading σ α) before found after ↔ found = value ∧ after = before := by
  simp [Yields, outcome_pure, eq_comm]

@[simp] theorem not_yields_throw {before after : Lookahead σ} {fault : Fault} {value : α} :
    ¬ Yields (throw fault : Reading σ α) before value after := by
  simp [Yields, outcome_throw]

@[simp] theorem fails_throw {before : Lookahead σ} {thrown fault : Fault} :
    Fails (throw thrown : Reading σ α) before fault ↔ fault = thrown := by
  simp [Fails, outcome_throw, eq_comm]

@[simp] theorem yields_lift {before after : Lookahead σ} {answer : Except Fault α} {value : α} :
    Yields (liftM answer : Reading σ α) before value after ↔ answer = .ok value ∧ after = before := by
  simp [Yields, outcome_lift, eq_comm]

@[simp] theorem fails_lift {before : Lookahead σ} {answer : Except Fault α} {fault : Fault} :
    Fails (liftM answer : Reading σ α) before fault ↔ answer = .error fault := by
  simp [Fails, outcome_lift]

/-- Looking at the reader changes nothing. -/
@[simp] theorem yields_get_bind {next : Lookahead σ → Reading σ β} {before after : Lookahead σ} {value : β} :
    Yields (get >>= next) before value after ↔ Yields (next before) before value after := by
  simp [Yields, outcome_bind, outcome_get]

theorem outcome_get_bind {next : Lookahead σ → Reading σ β} {before : Lookahead σ} :
    outcome (get >>= next) before = outcome (next before) before := by
  rw [outcome_bind, outcome_get]

@[simp] theorem fails_get_bind {next : Lookahead σ → Reading σ β} {before : Lookahead σ} {fault : Fault} :
    Fails (get >>= next) before fault ↔ Fails (next before) before fault := by
  simp [Fails, outcome_bind, outcome_get]

theorem above_ok {height found : Nat} : above height = .ok found ↔ height < maxDepth ∧ found = height + 1 := by
  simp only [above]
  split <;> simp [eq_comm] <;> omega

theorem above_error {height : Nat} {fault : Fault} :
    above height = .error fault ↔ maxDepth ≤ height ∧ fault = .tooDeep maxDepth := by
  simp only [above]
  split <;> simp [eq_comm, *]

theorem yields_above {before : Lookahead σ} {height : Nat} (low : height < maxDepth) :
    Yields (liftM (above height) : Reading σ Nat) before (height + 1) before :=
  yields_lift.mpr ⟨above_ok.mpr ⟨low, rfl⟩, rfl⟩

theorem fails_above {before : Lookahead σ} {height : Nat} (high : maxDepth ≤ height) :
    Fails (liftM (above height) : Reading σ Nat) before (.tooDeep maxDepth) :=
  fails_lift.mpr (above_error.mpr ⟨high, rfl⟩)

section Sources
variable [Source σ]

theorem outcome_advance (before : Lookahead σ) :
    outcome advance before =
      match Source.next before.unread with
      | (.ok token, unread) => (.ok (), { before with unread, current := before.following, following := token })
      | (.error fault, unread) => (.error fault, { before with unread, current := before.following }) := rfl

theorem yields_advance {before after : Lookahead σ} :
    Yields advance before () after ↔ Source.next before.unread = (.ok after.following, after.unread) ∧
      after.current = before.following ∧ after.length = before.length := by
  simp only [Yields, outcome_advance]
  rcases Source.next before.unread with ⟨fault | token, rest⟩
  · simp
  · rcases after with ⟨length, unread, current, following⟩
    simp only [Prod.mk.injEq, Except.ok.injEq, Lookahead.mk.injEq, true_and]
    constructor
    · rintro ⟨rfl, rfl, rfl, rfl⟩
      exact ⟨⟨rfl, rfl⟩, rfl, rfl⟩
    · rintro ⟨⟨rfl, rfl⟩, rfl, rfl⟩
      exact ⟨rfl, rfl, rfl, rfl⟩

theorem fails_advance {before : Lookahead σ} {fault : Fault} :
    Fails advance before fault ↔ (Source.next before.unread).1 = .error fault := by
  simp only [Fails, outcome_advance]
  rcases Source.next before.unread with ⟨found | token, rest⟩ <;> simp

theorem outcome_roundLimit_bind {next : Nat → Reading σ β} {before : Lookahead σ} :
    outcome (roundLimit >>= next) before = outcome (next (Source.size before.unread + 1)) before := by
  rw [roundLimit, bind_assoc, outcome_get_bind, pure_bind]

@[simp] theorem yields_roundLimit_bind {next : Nat → Reading σ β} {before after : Lookahead σ} {value : β} :
    Yields (roundLimit >>= next) before value after ↔ Yields (next (Source.size before.unread + 1)) before value after := by
  simp only [roundLimit, bind_assoc, pure_bind, yields_get_bind]

@[simp] theorem fails_roundLimit_bind {next : Nat → Reading σ β} {before : Lookahead σ} {fault : Fault} :
    Fails (roundLimit >>= next) before fault ↔ Fails (next (Source.size before.unread + 1)) before fault := by
  simp only [roundLimit, bind_assoc, pure_bind, fails_get_bind]

variable [LawfulSource σ]

structure Sees (reader : Lookahead σ) (tokens : List Token) : Prop where
  current : reader.current = tokens.headD .eof
  following : reader.following = tokens.tail.headD .eof
  unread : all reader.unread = .ok tokens.tail.tail
  proper : .eof ∉ tokens

namespace Sees
variable {reader before after : Lookahead σ} {tokens : List Token}

theorem length_le (sees : Sees reader tokens) : tokens.length ≤ Source.size reader.unread + 2 := by
  have bound := TokenSequence.length_le sees.unread
  simp only [List.length_tail] at bound
  omega

theorem advance (sees : Sees reader tokens) : ∃ after, Yields advance reader () after ∧ Sees after tokens.tail := by
  obtain ⟨rest, found, remaining⟩ := next_of_all sees.unread
  exact ⟨⟨reader.length, rest, reader.following, _⟩, yields_advance.mpr ⟨found, rfl, rfl⟩, sees.following, rfl, remaining,
    fun member => sees.proper (List.mem_of_mem_tail member)⟩

theorem of_advance (moved : Yields Lookahead.advance before () after) (proper : before.current ≠ .eof)
    (sees : Sees after tokens) : Sees before (before.current :: tokens) := by
  obtain ⟨found, current, -⟩ := yields_advance.mp moved
  refine ⟨rfl, current.symm.trans sees.current, ?_, by simpa [proper.symm] using sees.proper⟩
  exact all_of_next found sees.following sees.unread (fun member => sees.proper (List.mem_of_mem_tail member))

theorem ofSource {source : σ} (whole : all source = .ok tokens) (some : tokens ≠ []) :
    ∃ reader, Lookahead.ofSource source = .ok reader ∧ Sees reader tokens := by
  have proper := eof_not_mem whole
  obtain ⟨unread, found, remaining⟩ := next_of_all whole
  obtain ⟨rest, found', remaining'⟩ := next_of_all remaining
  cases tokens with
  | nil => contradiction
  | cons first others =>
    refine ⟨⟨Source.size source, rest, first, others.headD .eof⟩, ?_, rfl, rfl, remaining', proper⟩
    cases first <;> simp_all [Lookahead.ofSource]

end Sees

theorem ofSource_empty {source : σ} (whole : all source = .ok []) : Lookahead.ofSource source = .error .empty := by
  obtain ⟨rest, found, -⟩ := next_of_all whole
  simp [Lookahead.ofSource, found]

omit [LawfulSource σ] in
theorem ofSource_eq_ok {source : σ} {reader : Lookahead σ} :
    Lookahead.ofSource source = .ok reader ↔ ∃ unread, Source.next source = (.ok reader.current, unread) ∧
      reader.current ≠ .eof ∧ Source.next unread = (.ok reader.following, reader.unread) ∧
      reader.length = Source.size source := by
  constructor
  · intro opened
    simp only [Lookahead.ofSource] at opened
    split at opened
    · contradiction
    · contradiction
    next current unread proper found =>
      split at opened
      · contradiction
      next following rest found' =>
        obtain rfl := Except.ok.inj opened
        exact ⟨unread, found, proper, found', rfl⟩
  · rintro ⟨unread, found, proper, found', length⟩
    rcases reader with ⟨_, rest, current, following⟩
    cases current <;> simp_all [Lookahead.ofSource]

/-- The tokens that a new reader sees are those of its source. -/
theorem all_of_ofSource {source : σ} {reader : Lookahead σ} {tokens : List Token}
    (opened : Lookahead.ofSource source = .ok reader) (sees : Sees reader tokens) : all source = .ok tokens := by
  obtain ⟨unread, found, -, found', -⟩ := ofSource_eq_ok.mp opened
  apply all_of_next found sees.current _ sees.proper
  exact all_of_next found' sees.following sees.unread (fun member => sees.proper (List.mem_of_mem_tail member))

omit [LawfulSource σ] in
theorem expression_of_yields {before after : Lookahead σ} {tree : Expression} (yields : Yields whole before tree after) :
    before.expression = (.ok tree, after) := by
  have ran : whole.run before = (.ok tree, after) := yields
  rw [Lookahead.expression, ran]

omit [LawfulSource σ] in
theorem expression_of_error {before after : Lookahead σ} {fault : Fault} (failed : outcome whole before = (.error fault, after)) :
    before.expression = (.error ⟨fault, some after.position⟩, after) := by
  have ran : whole.run before = (.error fault, after) := failed
  rw [Lookahead.expression, ran]

omit [LawfulSource σ] in
theorem expression_of_fails {before : Lookahead σ} {fault : Fault} (fails : Fails whole before fault) :
    ∃ after, before.expression = (.error ⟨fault, some after.position⟩, after) := by
  obtain ⟨after, failed⟩ := fails
  exact ⟨after, expression_of_error failed⟩

omit [LawfulSource σ] in
theorem expression_after (before : Lookahead σ) : before.expression.2 = (outcome whole before).2 := by
  rcases ran : outcome whole before with ⟨fault | tree, after⟩
  · rw [expression_of_error ran]
  · rw [expression_of_yields ran]

omit [LawfulSource σ] in
theorem yields_of_expression {before : Lookahead σ} {tree : Expression} (read : before.expression.1 = .ok tree) :
    ∃ after, Yields whole before tree after := by
  rcases ran : outcome whole before with ⟨fault | found, after⟩
  · rw [expression_of_error ran] at read
    contradiction
  · rw [expression_of_yields ran] at read
    exact ⟨after, Except.ok.inj read ▸ ran⟩

end Sources

end DiceNotation.Proofs.Reading

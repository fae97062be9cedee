import DiceNotation.Proofs.Rounds

/-! Readings of two sources that are written alike. They do nothing but look at two tokens, advance, read operands and fail,
so what advancing keeps is kept to the end of all of reading, also where that fails, and readers that advance alike are
answered alike. -/

namespace DiceNotation.Proofs.ParallelReadings
open Token Lookahead TokenSequence Reading Rounds
open Expression (Fault)

variable {σ τ α β : Type}

section Grammar
variable [Source σ]

def argumentsBy (several : Reading σ (List Expression × Nat)) : Reading σ (List Expression × Nat) := do
  match (← get).following with
  | .rightParenthesis =>
    advance
    return ([], 0)
  | _ => several

def callBy (several : Reading σ (List Expression × Nat)) (function : Builtin) : Reading σ Grown := do
  match (← get).following with
  | .leftParenthesis =>
    advance
    let (arguments, height) ← argumentsBy several
    return ⟨.call function arguments, ← above height⟩
  | _ => throw (.unexpectedStart (Token.builtinText function))

def primaryBy (operand : Precedence → Reading σ Grown) (several : Reading σ (List Expression × Nat)) : Reading σ Grown := do
  match (← get).current with
  | .number value => return ⟨.literal value, 1⟩
  | .minus => signed operand .minus
  | .plus => signed operand .plus
  | .leftParenthesis =>
    advance
    let inner ← operand .lowest
    expectClosing
    return inner
  | .function builtin => callBy several builtin
  | token => throw (.unexpectedStart token.description)

/-- An operand, its two loops left open: how several arguments are read, and how further operands are joined to the first. -/
def levelBy (operand : Precedence → Reading σ Grown) (several : Reading σ (List Expression × Nat))
    (joined : Grown → Reading σ Grown) : Reading σ Grown := do
  let first ← primaryBy operand several
  joined first

def wholeBy (operand : Precedence → Reading σ Grown) : Reading σ Expression := do
  let grown ← operand .lowest
  match (← get).following with
  | .eof => return grown.tree
  | token => throw (.trailing token.description)

theorem operand_succ (room : Nat) (precedence : Precedence) :
    (Lookahead.operand (room + 1) precedence : Reading σ Grown) =
      levelBy (Lookahead.operand room) (do argumentRounds (Lookahead.operand room) (← roundLimit) ([], 0))
        (fun first => do chain (Lookahead.operand room) precedence (← roundLimit) first) := rfl

theorem whole_eq : (whole : Reading σ Expression) = wholeBy (Lookahead.operand maxDepth) := rfl

end Grammar

section Pairs
variable [Source σ] [Source τ] {operand : Precedence → Reading σ Grown} {operand' : Precedence → Reading τ Grown}
variable {several : Reading σ (List Expression × Nat)} {several' : Reading τ (List Expression × Nat)}

inductive Parallel (operand : Precedence → Reading σ Grown) (operand' : Precedence → Reading τ Grown) :
    ∀ {α : Type}, Reading σ α → Reading τ α → Prop where
  | pure {α : Type} (value : α) : Parallel operand operand' (Pure.pure value) (Pure.pure value)
  | throw {α : Type} (fault : Fault) : Parallel operand operand' (MonadExcept.throw fault : Reading σ α) (MonadExcept.throw fault)
  | lift {α : Type} (answer : Except Fault α) : Parallel operand operand' (liftM answer) (liftM answer)
  | advance : Parallel operand operand' Lookahead.advance Lookahead.advance
  | operand (precedence : Precedence) : Parallel operand operand' (operand precedence) (operand' precedence)
  | bind {α β : Type} {first : Reading σ α} {first' : Reading τ α} {next : α → Reading σ β} {next' : α → Reading τ β}
      (here : Parallel operand operand' first first') (rest : ∀ value, Parallel operand operand' (next value) (next' value)) :
      Parallel operand operand' (first >>= next) (first' >>= next')
  | look {α : Type} {next : Lookahead σ → Reading σ α} {next' : Lookahead τ → Reading τ α}
      (rest : ∀ reader reader', reader'.current = reader.current → reader'.following = reader.following →
        Parallel operand operand' (next reader) (next' reader')) :
      Parallel operand operand' (get >>= next) (get >>= next')
  | limit {α : Type} {reading : Reading σ α} {reading' : Reading τ α} {rounds : Nat → Reading σ α}
      {rounds' : Nat → Reading τ α} (here : Limit reading rounds) (there : Limit reading' rounds')
      (rest : ∀ count, Parallel operand operand' (rounds count) (rounds' count)) : Parallel operand operand' reading reading'

theorem expectClosing_parallel : Parallel operand operand' expectClosing expectClosing := by
  refine .look fun reader reader' _ following => ?_
  rw [following]
  split
  · exact .advance
  · exact .throw _

theorem argumentRounds_parallel (rounds : Nat) (read : List Expression × Nat) :
    Parallel operand operand' (argumentRounds operand rounds read) (argumentRounds operand' rounds read) := by
  induction rounds generalizing read with
  | zero => exact .throw _
  | succ rounds ih =>
    refine .bind .advance fun _ => .bind (.operand .lowest) fun argument => .look fun reader reader' _ following => ?_
    rw [following]
    split
    · exact .bind .advance fun _ => ih _
    · exact .bind expectClosing_parallel fun _ => .pure _

theorem signed_parallel (sign : Sign) : Parallel operand operand' (signed operand sign) (signed operand' sign) :=
  .bind .advance fun _ => .bind (.operand .sign) fun _ => .bind (.lift _) fun _ => .pure _

theorem chain_parallel (precedence : Precedence) (rounds : Nat) (left : Grown) :
    Parallel operand operand' (chain operand precedence rounds left) (chain operand' precedence rounds left) := by
  induction rounds generalizing left with
  | zero => exact .pure _
  | succ rounds ih =>
    refine .look fun reader reader' _ following => ?_
    rw [following]
    split
    · split
      · exact .bind .advance fun _ => .bind .advance fun _ => .bind (.operand _) fun right => .bind (.lift _) fun height => ih _
      · exact .pure _
    · exact .pure _

theorem argumentsBy_parallel (more : Parallel operand operand' several several') :
    Parallel operand operand' (argumentsBy several) (argumentsBy several') := by
  refine .look fun reader reader' _ following => ?_
  rw [following]
  split
  · exact .bind .advance fun _ => .pure _
  · exact more

theorem callBy_parallel (more : Parallel operand operand' several several') (function : Builtin) :
    Parallel operand operand' (callBy several function) (callBy several' function) := by
  refine .look fun reader reader' _ following => ?_
  rw [following]
  split
  · exact .bind .advance fun _ => .bind (argumentsBy_parallel more) fun read => .bind (.lift _) fun _ => .pure _
  · exact .throw _

theorem primaryBy_parallel (more : Parallel operand operand' several several') :
    Parallel operand operand' (primaryBy operand several) (primaryBy operand' several') := by
  refine .look fun reader reader' current _ => ?_
  rw [current]
  split
  · exact .pure _
  · exact signed_parallel .minus
  · exact signed_parallel .plus
  · exact .bind .advance fun _ => .bind (.operand .lowest) fun inner => .bind expectClosing_parallel fun _ => .pure _
  · exact callBy_parallel more _
  · exact .throw _

theorem wholeBy_parallel : Parallel operand operand' (wholeBy operand) (wholeBy operand') := by
  refine .bind (.operand .lowest) fun grown => .look fun reader reader' _ following => ?_
  rw [following]
  split
  · exact .pure _
  · exact .throw _

/-- What is done in the two loops of an operand is done in rounds. -/
structure Loops (operand : Precedence → Reading σ Grown) (precedence : Precedence)
    (several : Reading σ (List Expression × Nat)) (joined : Grown → Reading σ Grown) : Prop where
  arguments : Limit several (argumentRounds operand · ([], 0))
  chain : ∀ first, Limit (joined first) (Lookahead.chain operand precedence · first)

theorem levelBy_parallel {precedence : Precedence} {joined : Grown → Reading σ Grown} {joined' : Grown → Reading τ Grown}
    (loops : Loops operand precedence several joined) (loops' : Loops operand' precedence several' joined') :
    Parallel operand operand' (levelBy operand several joined) (levelBy operand' several' joined') := by
  have more : Parallel operand operand' several several' :=
    .limit loops.arguments loops'.arguments fun rounds => argumentRounds_parallel rounds _
  exact .bind (primaryBy_parallel more) fun first =>
    .limit (loops.chain first) (loops'.chain first) fun rounds => chain_parallel precedence rounds first

end Pairs

section Steadiness
variable [Source σ] {operand : Precedence → Reading σ Grown} {reading : Reading σ α}
variable {holds : Lookahead σ → Prop} {lost : Fault → Prop}

theorem Parallel.steady [Source τ] [Nonempty τ] {operand' : Precedence → Reading τ Grown} {reading' : Reading τ α}
    (parallel : Parallel operand operand' reading reading') (moves : Steady holds lost (Lookahead.advance : Reading σ Unit))
    (inner : ∀ precedence, Steady holds lost (operand precedence)) : Steady holds lost reading := by
  induction parallel with
  | pure | throw | lift => exact fun before held => .inl held
  | advance => exact moves
  | operand precedence => exact inner precedence
  | @bind _ _ first _ next _ _ _ here rest =>
    intro before held
    have kept := here before held
    rcases reached : outcome first before with ⟨fault | value, between⟩ <;> rw [reached] at kept
    · rw [outcome_bind_of_error reached]
      exact kept.imp_right fun ⟨_, failed, loses⟩ => ⟨fault, rfl, Except.error.inj failed ▸ loses⟩
    · rw [Yields.outcome_bind reached]
      obtain held | ⟨_, failed, -⟩ := kept
      · exact rest value between held
      · contradiction
  | look _ rest =>
    intro before held
    obtain ⟨other⟩ := ‹Nonempty τ›
    rw [outcome_get_bind]
    exact rest before ⟨0, other, before.current, before.following⟩ rfl rfl before held
  | limit here _ _ rest =>
    intro before held
    obtain ⟨enough, same⟩ := here before
    rw [same enough (Nat.le_refl _)]
    exact rest enough before held

variable [LawfulSource σ]

theorem levelBy_narrows {precedence : Precedence} {several : Reading σ (List Expression × Nat)}
    {joined : Grown → Reading σ Grown} (loops : Loops operand precedence several joined)
    (narrows : ∀ precedence, Narrows (operand precedence)) : Narrows (levelBy operand several joined) := by
  intro bound before short
  have : Nonempty σ := ⟨before.unread⟩
  exact (levelBy_parallel loops loops).steady (advance_narrows bound) (fun _ => narrows _ bound) before short

theorem loops_of_narrows (narrows : ∀ precedence, Narrows (operand precedence)) (precedence : Precedence) :
    Loops operand precedence (do argumentRounds operand (← roundLimit) ([], 0))
      (fun first => do chain operand precedence (← roundLimit) first) :=
  ⟨argumentRounds_limit narrows _, chain_limit narrows precedence⟩

theorem operand_narrows (room : Nat) (precedence : Precedence) :
    Narrows (Lookahead.operand room precedence : Reading σ Grown) := by
  induction room generalizing precedence with
  | zero => exact fun bound before short => .inl short
  | succ room ih =>
    rw [operand_succ]
    exact levelBy_narrows (loops_of_narrows ih precedence) ih

theorem operand_parallel [Source τ] [LawfulSource τ] (room : Nat) (precedence : Precedence) :
    Parallel (Lookahead.operand room : Precedence → Reading σ Grown) (Lookahead.operand room : Precedence → Reading τ Grown)
      (Lookahead.operand (room + 1) precedence) (Lookahead.operand (room + 1) precedence) := by
  rw [operand_succ, operand_succ]
  exact levelBy_parallel (loops_of_narrows (operand_narrows room) precedence)
    (loops_of_narrows (operand_narrows room) precedence)

variable [Nonempty σ] (moves : Steady holds lost (advance : Reading σ Unit))
include moves

theorem operand_steady (room : Nat) (precedence : Precedence) :
    Steady holds lost (Lookahead.operand room precedence : Reading σ Grown) := by
  induction room generalizing precedence with
  | zero => exact fun before held => .inl held
  | succ room ih => exact (operand_parallel (τ := σ) room precedence).steady moves ih

theorem whole_steady : Steady holds lost (whole : Reading σ Expression) := by
  have parallel : Parallel (Lookahead.operand maxDepth) (Lookahead.operand maxDepth : Precedence → Reading σ Grown)
      (whole : Reading σ Expression) whole := wholeBy_parallel
  exact parallel.steady moves (operand_steady moves maxDepth)

end Steadiness

section Following
variable {operand : Precedence → Reading σ Grown} {operand' : Precedence → Reading τ Grown}
variable {together : Lookahead σ → Lookahead τ → Prop} {within : Lookahead σ → Prop}

structure Same (together : Lookahead σ → Lookahead τ → Prop) (here : Except Fault α × Lookahead σ)
    (there : Except Fault α × Lookahead τ) : Prop where
  answer : there.1 = here.1
  after : together here.2 there.2

/-- Readings that start together end the same, unless the one ends too far. -/
structure Follows (together : Lookahead σ → Lookahead τ → Prop) (within : Lookahead σ → Prop) (reading : Reading σ α)
    (reading' : Reading τ α) : Prop where
  back : ∀ before, within (outcome reading before).2 → within before
  same : ∀ before before', together before before' → within (outcome reading before).2 →
    Same together (outcome reading before) (outcome reading' before')

def Views (together : Lookahead σ → Lookahead τ → Prop) : Prop :=
  ∀ before before', together before before' → before'.current = before.current ∧ before'.following = before.following

namespace Follows

/-- What is decided without advancing. -/
theorem still {reading : Reading σ α} {reading' : Reading τ α} (answer : Except Fault α)
    (here : ∀ before, outcome reading before = (answer, before)) (there : ∀ before, outcome reading' before = (answer, before)) :
    Follows together within reading reading' where
  back before inside := by rwa [here] at inside
  same before before' side _ := by
    rw [here, there]
    exact ⟨rfl, side⟩

theorem bind {first : Reading σ α} {first' : Reading τ α} {next : α → Reading σ β} {next' : α → Reading τ β}
    (follows : Follows together within first first') (rest : ∀ value, Follows together within (next value) (next' value)) :
    Follows together within (first >>= next) (first' >>= next') := by
  have apart (before : Lookahead σ) (inside : within (outcome (first >>= next) before).2) :
      within (outcome first before).2 := by
    rcases reached : outcome first before with ⟨fault | value, between⟩
    · rwa [outcome_bind_of_error reached] at inside
    · rw [Yields.outcome_bind reached] at inside
      exact (rest value).back between inside
  refine ⟨fun before inside => follows.back before (apart before inside), fun before before' side inside => ?_⟩
  obtain ⟨answer, side'⟩ := follows.same before before' side (apart before inside)
  rw [outcome_bind] at inside
  rw [outcome_bind, outcome_bind]
  rcases reached : outcome first before with ⟨ended, between⟩
  rcases reached' : outcome first' before' with ⟨ended', between'⟩
  rw [reached, reached'] at answer side'
  rw [reached] at inside
  obtain rfl : ended' = ended := answer
  cases ended' with
  | error fault => exact ⟨rfl, side'⟩
  | ok value => exact (rest value).same between between' side' inside

end Follows

section Sources
variable [Source σ] [Source τ]

theorem Parallel.follows [Nonempty τ] {reading : Reading σ α} {reading' : Reading τ α}
    (parallel : Parallel operand operand' reading reading') (views : Views together)
    (moves : Follows together within (Lookahead.advance : Reading σ Unit) (Lookahead.advance : Reading τ Unit))
    (inner : ∀ precedence, Follows together within (operand precedence) (operand' precedence)) :
    Follows together within reading reading' := by
  induction parallel with
  | pure value => exact .still (.ok value) (outcome_pure value) (outcome_pure value)
  | throw fault => exact .still (.error fault) (outcome_throw fault) (outcome_throw fault)
  | lift answer => exact .still answer (outcome_lift answer) (outcome_lift answer)
  | advance => exact moves
  | operand precedence => exact inner precedence
  | bind _ _ here rest => exact here.bind rest
  | look _ rest =>
    obtain ⟨other⟩ := ‹Nonempty τ›
    refine ⟨fun before inside => ?_, fun before before' side inside => ?_⟩ <;> rw [outcome_get_bind] at inside
    · exact (rest before ⟨0, other, before.current, before.following⟩ rfl rfl).back before inside
    · obtain ⟨current, following⟩ := views before before' side
      rw [outcome_get_bind, outcome_get_bind]
      exact (rest before before' current following).same before before' side inside
  | limit here there _ rest =>
    refine ⟨fun before inside => ?_, fun before before' side inside => ?_⟩
    · obtain ⟨enough, same⟩ := here before
      rw [same enough (Nat.le_refl _)] at inside
      exact (rest enough).back before inside
    · -- As many rounds as the slower side needs are enough for both.
      obtain ⟨enough, same⟩ := here before
      obtain ⟨enough', same'⟩ := there before'
      rw [same _ (Nat.le_max_left enough enough')] at inside ⊢
      rw [same' _ (Nat.le_max_right enough enough')]
      exact (rest _).same before before' side inside

variable [LawfulSource σ] [LawfulSource τ] [Nonempty τ] (views : Views together)
variable (moves : Follows together within (advance : Reading σ Unit) (advance : Reading τ Unit))
include views moves

theorem operand_follows (room : Nat) (precedence : Precedence) :
    Follows together within (Lookahead.operand room precedence) (Lookahead.operand room precedence) := by
  induction room generalizing precedence with
  | zero => exact .still _ (outcome_throw _) (outcome_throw _)
  | succ room ih => exact (operand_parallel room precedence).follows views moves ih

theorem whole_follows : Follows together within (whole : Reading σ Expression) (whole : Reading τ Expression) :=
  wholeBy_parallel.follows views moves (operand_follows views moves maxDepth)

end Sources

end Following

end DiceNotation.Proofs.ParallelReadings

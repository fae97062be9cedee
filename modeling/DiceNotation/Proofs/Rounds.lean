import DiceNotation.Proofs.Reading

/-! How many rounds the loops of a reading take. A round of arguments goes on behind a comma and a round of operands with an
operator, so what is left of the source bounds them both: loops end of themselves before their rounds run out. -/

namespace DiceNotation.Proofs.Rounds
open Token Lookahead TokenSequence Reading
open Expression (Fault)

variable {σ α : Type}

/-- The property is kept, also where the reading fails, unless it fails with a fault that loses it. -/
def Steady (holds : Lookahead σ → Prop) (lost : Fault → Prop) (reading : Reading σ α) : Prop :=
  ∀ before, holds before → holds (outcome reading before).2 ∨ ∃ fault, (outcome reading before).1 = .error fault ∧ lost fault

def Never (_ : Fault) : Prop := False

theorem Steady.after {holds : Lookahead σ → Prop} {reading : Reading σ α} {before : Lookahead σ}
    (steady : Steady holds Never reading) (held : holds before) : holds (outcome reading before).2 := by
  obtain held | ⟨_, _, never⟩ := steady before held
  · exact held
  · exact never.elim

section Ahead
variable [Source σ] [LawfulSource σ] {operand : Precedence → Reading σ Grown} {before after : Lookahead σ}

def ahead (reader : Lookahead σ) : Nat :=
  Source.size reader.unread + if isEnd reader.following then 0 else 1

omit [LawfulSource σ] in
theorem ahead_le (reader : Lookahead σ) : ahead reader ≤ Source.size reader.unread + 1 := by
  rw [ahead]
  split <;> omega

omit [LawfulSource σ] in
theorem ahead_of_operator {operator : Operator} (found : before.following.operator? = some operator) :
    ahead before = Source.size before.unread + 1 := by
  have more : isEnd before.following = false := by
    cases following : before.following <;> simp_all [operator?, isEnd]
  rw [ahead, more]
  rfl

omit [LawfulSource σ] in
theorem size_le_ahead (reader : Lookahead σ) : Source.size reader.unread ≤ ahead reader := Nat.le_add_right _ _

/-- Nothing comes back that has been read. -/
def Narrows (reading : Reading σ α) : Prop := ∀ bound, Steady (ahead · ≤ bound) Never reading

omit [LawfulSource σ] in
theorem Narrows.of_yields {reading : Reading σ α} {value : α} (narrows : Narrows reading)
    (yields : Yields reading before value after) : ahead after ≤ ahead before := by
  have less := (narrows (ahead before)).after (Nat.le_refl _)
  rwa [yields] at less

/-- The token that was looked at as the following one is not among those that come any more. -/
theorem ahead_of_advance (moved : Yields advance before () after) : ahead after ≤ Source.size before.unread := by
  obtain ⟨found, -, -⟩ := yields_advance.mp moved
  rw [ahead]
  split
  · have shrinks := LawfulSource.shrinks before.unread
    rwa [found] at shrinks
  next more => exact LawfulSource.shorter found (mt isEnd_iff.mpr more)

theorem advance_narrows : Narrows (advance : Reading σ Unit) := by
  intro bound before short
  left
  rcases found : Source.next before.unread with ⟨fault | token, rest⟩
  · have shrinks := LawfulSource.shrinks before.unread
    simp only [outcome_advance, found, ahead] at shrinks short ⊢
    omega
  · have moved : Yields advance before () ⟨before.length, rest, before.following, token⟩ :=
      yields_advance.mpr ⟨found, rfl, rfl⟩
    rw [moved]
    exact (ahead_of_advance moved).trans ((size_le_ahead before).trans short)

omit [LawfulSource σ] in
theorem chain_ended {precedence : Precedence} {left : Grown} (ends : before.following = .eof) (rounds : Nat) :
    outcome (chain operand precedence rounds left) before = (.ok left, before) := by
  cases rounds with
  | zero => exact outcome_pure left before
  | succ rounds =>
    rw [chain, outcome_get_bind, ends]
    exact outcome_pure left before

end Ahead

section Loops
variable [Source σ] {operand : Precedence → Reading σ Grown} {before : Lookahead σ}

def argumentLoop (spent : Fault) (operand : Precedence → Reading σ Grown) :
    Nat → List Expression × Nat → Reading σ (List Expression × Nat)
  | 0, _ => throw spent
  | rounds + 1, (arguments, height) => do
    advance
    let argument ← operand .lowest
    let read := addArgument arguments height argument
    match (← get).following with
    | .comma =>
      advance
      argumentLoop spent operand rounds read
    | _ =>
      expectClosing
      return read

def chainLoop (spent : Fault) (operand : Precedence → Reading σ Grown) (precedence : Precedence) (rounds : Nat)
    (left : Grown) : Reading σ Grown := do
  match (← get).following.operator? with
  | some operator =>
    if precedence.rank < operator.precedence.rank then
      match rounds with
      | 0 => throw spent
      | rounds + 1 =>
        advance
        advance
        let right ← operand operator.precedence
        let height ← above (max left.height right.height)
        chainLoop spent operand precedence rounds ⟨.binary operator left.tree right.tree, height⟩
    else return left
  | none => return left

variable [LawfulSource σ] (narrows : ∀ precedence, Narrows (operand precedence)) (spent : Fault)
include narrows

/-- Every round goes on behind a comma. -/
theorem argumentLoop_eq {rounds : Nat} (extra : Nat) (read : List Expression × Nat)
    (enough : Source.size before.unread < rounds) :
    outcome (argumentLoop spent operand rounds read) before =
      outcome (argumentRounds operand (rounds + extra) read) before := by
  induction rounds generalizing before read with
  | zero => contradiction
  | succ rounds ih =>
    rw [Nat.succ_add, argumentRounds, argumentLoop]
    refine outcome_bind_congr fun _ next moved => outcome_bind_congr fun argument last taken => ?_
    rw [outcome_get_bind, outcome_get_bind]
    cases following : last.following with
    | comma =>
      refine outcome_bind_congr fun _ atComma moved' => ih _ ?_
      have first := ahead_of_advance moved
      have second := (narrows .lowest).of_yields taken
      have third := ahead_of_advance moved'
      have more : ahead last = Source.size last.unread + 1 := by
        rw [ahead, following]
        rfl
      have fourth := size_le_ahead atComma
      omega
    | _ => rfl

/-- Every round goes on with an operator, and there are as many rounds as tokens that come. -/
theorem chainLoop_eq (precedence : Precedence) {rounds : Nat} (extra : Nat) (left : Grown) (enough : ahead before ≤ rounds) :
    outcome (chainLoop spent operand precedence rounds left) before =
      outcome (chain operand precedence (rounds + extra) left) before := by
  induction rounds generalizing before left with
  | zero =>
    have ends : before.following = .eof := by
      by_contra more
      rw [ahead, if_neg (mt isEnd_iff.mp more)] at enough
      omega
    rw [chain_ended ends, chainLoop, outcome_get_bind, ends]
    exact outcome_pure left before
  | succ rounds ih =>
    rw [Nat.succ_add, chain, chainLoop, outcome_get_bind, outcome_get_bind]
    cases found : before.following.operator? with
    | none => rfl
    | some operator =>
      by_cases tighter : precedence.rank < operator.precedence.rank
      · simp only [if_pos tighter]
        refine outcome_bind_congr fun _ atOperator moved => outcome_bind_congr fun _ next moved' =>
          outcome_bind_congr fun right last taken => outcome_bind_congr fun height last' lifted => ih _ ?_
        obtain ⟨-, rfl⟩ := yields_lift.mp lifted
        have here := ahead_of_operator found
        have first := ahead_of_advance moved
        have second := ahead_of_advance moved'
        have third := (narrows operator.precedence).of_yields taken
        have fourth := size_le_ahead atOperator
        omega
      · simp only [if_neg tighter]

end Loops

section Limits
variable [Source σ] [LawfulSource σ] {operand : Precedence → Reading σ Grown}

/-- The reading is what the rounds give that are enough, and any more of them. -/
def Limit (reading : Reading σ α) (rounds : Nat → Reading σ α) : Prop :=
  ∀ before, ∃ enough, ∀ count ≥ enough, outcome reading before = outcome (rounds count) before

variable (narrows : ∀ precedence, Narrows (operand precedence)) (spent : Fault) (precedence : Precedence)
include narrows

theorem argumentLoop_limit (read : List Expression × Nat) :
    Limit (do argumentLoop spent operand (← roundLimit) read) (argumentRounds operand · read) := by
  intro before
  refine ⟨Source.size before.unread + 1, fun count enough => ?_⟩
  obtain ⟨extra, rfl⟩ := Nat.exists_eq_add_of_le enough
  rw [outcome_roundLimit_bind]
  exact argumentLoop_eq narrows spent extra read (Nat.lt_succ_self _)

theorem argumentRounds_limit (read : List Expression × Nat) :
    Limit (do argumentRounds operand (← roundLimit) read) (argumentRounds operand · read) := by
  intro before
  obtain ⟨enough, same⟩ := argumentLoop_limit narrows .empty read before
  refine ⟨enough, fun count more => ?_⟩
  rw [← same count more, outcome_roundLimit_bind, outcome_roundLimit_bind]
  exact (argumentLoop_eq narrows .empty 0 read (Nat.lt_succ_self _)).symm

theorem chainLoop_limit (left : Grown) :
    Limit (do chainLoop spent operand precedence (← roundLimit) left) (chain operand precedence · left) := by
  intro before
  refine ⟨Source.size before.unread + 1, fun count enough => ?_⟩
  obtain ⟨extra, rfl⟩ := Nat.exists_eq_add_of_le enough
  rw [outcome_roundLimit_bind]
  exact chainLoop_eq narrows spent precedence extra left (ahead_le before)

theorem chain_limit (left : Grown) :
    Limit (do chain operand precedence (← roundLimit) left) (chain operand precedence · left) := by
  intro before
  obtain ⟨enough, same⟩ := chainLoop_limit narrows .empty precedence left before
  refine ⟨enough, fun count more => ?_⟩
  rw [← same count more, outcome_roundLimit_bind, outcome_roundLimit_bind]
  exact (chainLoop_eq narrows .empty precedence 0 left (ahead_le before)).symm

end Limits

end DiceNotation.Proofs.Rounds

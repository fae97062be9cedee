import DiceNotation.Proofs.Reading

/-! What holds wherever reading has got to. A property of readers that advancing keeps is kept by all of reading, whatever
advancing does not fail with is a fault of the phrase, and no operand is higher than the limit. -/

namespace DiceNotation.Proofs.ReadingInvariants
open Token Lookahead Reading
open Expression (Fault)

inductive Origin where
  | text
  | token
  | phrase
  | operation
  | elsewhere
deriving DecidableEq

def origin : Fault → Origin
  | .empty => .text
  | .invalidCharacter _ | .invalidNumber _ | .unknownName _ => .token
  | .unclosedParenthesis | .unexpectedStart _ | .trailing _ | .tooDeep _ => .phrase
  | .arity _ _ _ | .divisionByZero | .overflow => .operation
  | .unexpectedOperator _ | .notFinite | .unboundPlaceholder _ => .elsewhere

variable {σ α β : Type} {holds : Lookahead σ → Prop} {may : Fault → Prop} {result : α → Prop} {result' : β → Prop}

/-- Where it starts and ends the property holds, what it answers is a proper result, and it fails only as it may. -/
structure Keeps (holds : Lookahead σ → Prop) (may : Fault → Prop) (result : α → Prop) (reading : Reading σ α) : Prop where
  yields : ∀ {before value after}, holds before → Yields reading before value after → holds after ∧ result value
  fails : ∀ {before fault}, holds before → Fails reading before fault → may fault

namespace Keeps

theorem pure {value : α} (proper : result value) : Keeps holds may result (Pure.pure value : Reading σ α) where
  yields held yields := by
    obtain ⟨rfl, rfl⟩ := yields_pure.mp yields
    exact ⟨held, proper⟩
  fails := by
    rintro before fault - ⟨after, failed⟩
    cases failed

theorem throw {fault : Fault} (allowed : may fault) : Keeps holds may result (MonadExcept.throw fault : Reading σ α) where
  yields _ yields := absurd yields not_yields_throw
  fails _ failed := fails_throw.mp failed ▸ allowed

theorem lift {answer : Except Fault α} (proper : ∀ value, answer = .ok value → result value)
    (allowed : ∀ fault, answer = .error fault → may fault) : Keeps holds may result (liftM answer : Reading σ α) where
  yields held yields := by
    obtain ⟨answered, rfl⟩ := yields_lift.mp yields
    exact ⟨held, proper _ answered⟩
  fails _ failed := allowed _ (fails_lift.mp failed)

theorem bind {first : Reading σ α} {next : α → Reading σ β} (keeps : Keeps holds may result first)
    (rest : ∀ value, result value → Keeps holds may result' (next value)) : Keeps holds may result' (first >>= next) where
  yields held yields := by
    obtain ⟨value, between, here, there⟩ := yields_bind.mp yields
    obtain ⟨held, proper⟩ := keeps.yields held here
    exact (rest value proper).yields held there
  fails held failed := by
    rcases fails_bind.mp failed with here | ⟨value, between, here, there⟩
    · exact keeps.fails held here
    · obtain ⟨held, proper⟩ := keeps.yields held here
      exact (rest value proper).fails held there

theorem get_bind {next : Lookahead σ → Reading σ β} (rest : ∀ reader, Keeps holds may result' (next reader)) :
    Keeps holds may result' (get >>= next) where
  yields {before} _ _ held yields := (rest before).yields held (yields_get_bind.mp yields)
  fails {before} _ held failed := (rest before).fails held (fails_get_bind.mp failed)

end Keeps

def Anything (_ : α) : Prop := True

def Low (grown : Grown) : Prop := grown.height ≤ maxDepth

private theorem above_keeps (phrase : ∀ fault, origin fault = .phrase → may fault) (height : Nat) :
    Keeps holds may (· ≤ maxDepth) (liftM (above height) : Reading σ Nat) := by
  refine .lift (fun found low => ?_) fun fault high => (above_error.mp high).2 ▸ phrase _ rfl
  obtain ⟨less, rfl⟩ := above_ok.mp low
  exact less

section Readings
variable [Source σ]

theorem Keeps.roundLimit_bind {next : Nat → Reading σ β} (rest : ∀ rounds, Keeps holds may result' (next rounds)) :
    Keeps holds may result' (roundLimit >>= next) where
  yields held yields := (rest _).yields held (yields_roundLimit_bind.mp yields)
  fails held failed := (rest _).fails held (fails_roundLimit_bind.mp failed)

variable (moves : Keeps holds may Anything (advance : Reading σ Unit))
variable (phrase : ∀ fault, origin fault = .phrase → may fault)
include moves phrase

private theorem expectClosing_keeps : Keeps holds may Anything (expectClosing : Reading σ Unit) := by
  refine .get_bind fun reader => ?_
  split
  · exact moves
  · exact .throw (phrase _ rfl)

section Operands
variable {operand : Precedence → Reading σ Grown} (keeps : ∀ precedence, Keeps holds may Low (operand precedence))
include keeps

private theorem argumentRounds_keeps (rounds : Nat) (read : List Expression × Nat) :
    Keeps holds may Anything (argumentRounds operand rounds read) := by
  induction rounds generalizing read with
  | zero => exact .throw (phrase _ rfl)
  | succ rounds ih =>
    refine .bind moves fun _ _ => .bind (keeps .lowest) fun argument _ => .get_bind fun reader => ?_
    split
    · exact .bind moves fun _ _ => ih _
    · exact .bind (expectClosing_keeps moves phrase) fun _ _ => .pure trivial

private theorem arguments_keeps : Keeps holds may Anything (arguments operand) := by
  refine .get_bind fun reader => ?_
  split
  · exact .bind moves fun _ _ => .pure trivial
  · exact .roundLimit_bind fun rounds => argumentRounds_keeps moves phrase keeps rounds _

private theorem signed_keeps (sign : Sign) : Keeps holds may Low (signed operand sign) :=
  .bind moves fun _ _ => .bind (keeps .sign) fun _ _ => .bind (above_keeps phrase _) fun _ low => .pure low

private theorem call_keeps (function : Builtin) : Keeps holds may Low (call operand function) := by
  refine .get_bind fun reader => ?_
  split
  · exact .bind moves fun _ _ => .bind (arguments_keeps moves phrase keeps) fun read _ =>
      .bind (above_keeps phrase _) fun _ low => .pure low
  · exact .throw (phrase _ rfl)

private theorem primary_keeps : Keeps holds may Low (primary operand) := by
  refine .get_bind fun reader => ?_
  split
  · exact .pure (show 1 ≤ maxDepth by decide)
  · exact signed_keeps moves phrase keeps .minus
  · exact signed_keeps moves phrase keeps .plus
  · exact .bind moves fun _ _ => .bind (keeps .lowest) fun _ low =>
      .bind (expectClosing_keeps moves phrase) fun _ _ => .pure low
  · exact call_keeps moves phrase keeps _
  · exact .throw (phrase _ rfl)

private theorem chain_keeps (precedence : Precedence) (rounds : Nat) {left : Grown} (low : Low left) :
    Keeps holds may Low (chain operand precedence rounds left) := by
  induction rounds generalizing left with
  | zero => exact .pure low
  | succ rounds ih =>
    refine .get_bind fun reader => ?_
    split
    · split
      · exact .bind moves fun _ _ => .bind moves fun _ _ => .bind (keeps _) fun right _ =>
          .bind (above_keeps phrase _) fun height low => ih low
      · exact .pure low
    · exact .pure low

end Operands

theorem operand_keeps (room : Nat) (precedence : Precedence) :
    Keeps holds may Low (Lookahead.operand room precedence : Reading σ Grown) := by
  induction room generalizing precedence with
  | zero => exact .throw (phrase _ rfl)
  | succ room ih =>
    exact .bind (primary_keeps moves phrase ih) fun first low => .roundLimit_bind fun rounds =>
      chain_keeps moves phrase ih precedence rounds low

theorem whole_keeps : Keeps holds may Anything (whole : Reading σ Expression) := by
  refine .bind (operand_keeps moves phrase _ _) fun grown _ => .get_bind fun reader => ?_
  split
  · exact .pure trivial
  · exact .throw (phrase _ rfl)

end Readings

end DiceNotation.Proofs.ReadingInvariants

import DiceNotation.Proofs.ReadingInvariants
import DiceNotation.Proofs.Runs

/-! What an expression can be at fault for, and which faults have a place. A fault is one of the text, of a token, of the
phrase or of an operation; what is found wrong behind the first two tokens, before anything is evaluated, is placed. -/

namespace DiceNotation.Proofs.Faults
open Token TokenSequence Lookahead Reading ReadingInvariants Runs
open Expression (Fault Failure)

variable {α β : Type} {fault : Fault} {kind : Origin}

def FailsOnly (kind : Origin) (answer : Except Fault α) : Prop := ∀ fault, answer = .error fault → origin fault = kind

@[simp] theorem failsOnly_ok (value : α) : FailsOnly kind (.ok value) := by simp [FailsOnly]

@[simp] theorem failsOnly_error : FailsOnly kind (.error fault : Except Fault α) ↔ origin fault = kind := by
  simp [FailsOnly]

theorem FailsOnly.bind {first : Except Fault α} {next : α → Except Fault β} (only : FailsOnly kind first)
    (rest : ∀ value, FailsOnly kind (next value)) : FailsOnly kind (first >>= next) := by
  intro fault failed
  rcases bind_error.mp failed with here | ⟨value, -, there⟩
  · exact only fault here
  · exact rest value fault there

section Messages
variable {letter : Char} {text : String}

private structure Opens (letter : Char) (text : String) : Prop where
  head : text.toList.head? = some letter

private theorem Opens.append (opens : Opens letter text) (rest : String) : Opens letter (text ++ rest) where
  head := by
    rw [String.toList_append, List.head?_append, opens.head]
    rfl

private theorem message_opens : ∀ fault : Fault, ∃ letter ≠ 'A', Opens letter fault.message
  | .invalidCharacter c => ⟨'I', by decide, (⟨rfl⟩ : Opens 'I' "Invalid token: ").append (String.singleton c)⟩
  | .invalidNumber digits => ⟨'I', by decide, (⟨rfl⟩ : Opens 'I' "Invalid number: ").append digits⟩
  | .unknownName name => ⟨'N', by decide, ((⟨rfl⟩ : Opens 'N' "Name '").append name).append "' is not allowed"⟩
  | .empty => ⟨'E', by decide, ⟨rfl⟩⟩
  | .unclosedParenthesis => ⟨'P', by decide, ⟨rfl⟩⟩
  | .unexpectedStart token => ⟨'U', by decide, (⟨rfl⟩ : Opens 'U' "Unexpected prefix: ").append token⟩
  | .unexpectedOperator token => ⟨'U', by decide, (⟨rfl⟩ : Opens 'U' "Unexpected infix: ").append token⟩
  | .trailing token => ⟨'U', by decide, (⟨rfl⟩ : Opens 'U' "Unexpected trailing input: ").append token⟩
  | .arity _ _ _ => ⟨'F', by decide, (((((⟨rfl⟩ : Opens 'F' "Function ").append _).append _).append _).append _).append _⟩
  | .divisionByZero => ⟨'D', by decide, ⟨rfl⟩⟩
  | .overflow => ⟨'I', by decide, ⟨rfl⟩⟩
  | .notFinite => ⟨'R', by decide, ⟨rfl⟩⟩
  | .tooDeep _ => ⟨'E', by decide, ((⟨rfl⟩ : Opens 'E' "Expression is nested deeper than ").append _).append _⟩
  | .unboundPlaceholder _ => ⟨'P', by decide, ((⟨rfl⟩ : Opens 'P' "Placeholder \x7b").append _).append _⟩

/-- No fault reads as if it had been given a place already. -/
theorem message_ne (fault inner : Fault) (position : Nat) : fault.message ≠ (Failure.mk inner (some position)).message := by
  intro same
  obtain ⟨letter, other, opens⟩ := message_opens fault
  have placed : Opens 'A' (Failure.mk inner (some position)).message :=
    (((⟨rfl⟩ : Opens 'A' "At position ").append _).append _).append _
  rw [same] at opens
  exact other (Option.some.inj (opens.head.symm.trans placed.head))

end Messages

section Dispatch
variable {σ : Type} [Source σ]

def binding (token : Token) : Precedence := (token.operator?.map Operator.precedence).getD .lowest

/-- What becomes of a current token that turns out to be no operator: before its right operand is read, and after. -/
structure Strays (σ : Type) where
  early : Token → Reading σ Grown
  late : Token → Reading σ Grown

/-- Joins operands as `chain` does, but asks again what the operator is once it is the current token, and once more when its
right operand has been read. -/
def dispatch (strays : Strays σ) (operand : Precedence → Reading σ Grown) (precedence : Precedence) :
    Nat → Grown → Reading σ Grown
  | 0, left => return left
  | rounds + 1, left => do
    if precedence.rank < (binding (← get).following).rank then
      advance
      let token := (← get).current
      if token.operator?.isNone then strays.early token
      else
        advance
        let right ← operand (binding token)
        let height ← above (max left.height right.height)
        match token.operator? with
        | some operator => dispatch strays operand precedence rounds ⟨.binary operator left.tree right.tree, height⟩
        | none => strays.late token
    else return left

def dispatched (strays : Strays σ) : Nat → Precedence → Reading σ Grown
  | 0, _ => throw (.tooDeep maxDepth)
  | room + 1, precedence => do
    let first ← primary (dispatched strays room)
    dispatch strays (dispatched strays room) precedence (← roundLimit) first

theorem dispatch_eq (strays : Strays σ) (operand : Precedence → Reading σ Grown) (precedence : Precedence) (rounds : Nat)
    (left : Grown) : dispatch strays operand precedence rounds left = chain operand precedence rounds left := by
  induction rounds generalizing left with
  | zero => rfl
  | succ rounds ih =>
    funext before
    suffices same : outcome (dispatch strays operand precedence (rounds + 1) left) before =
        outcome (chain operand precedence (rounds + 1) left) before from same
    rw [dispatch, chain, outcome_get_bind, outcome_get_bind]
    cases found : before.following.operator? with
    | none =>
      have lowest : ¬ precedence.rank < (binding before.following).rank := by
        simp only [binding, found, Option.map_none, Option.getD_none]
        cases precedence <;> decide
      simp only [if_neg lowest]
    | some operator =>
      have same : binding before.following = operator.precedence := by simp [binding, found]
      simp only [same]
      split
      · refine outcome_bind_congr fun _ between moved => ?_
        have current := (yields_advance.mp moved).2.1
        rw [outcome_get_bind]
        simp [current, found, same, ih]
      · rfl

/-- Neither question is ever answered with anything but an operator. -/
theorem dispatched_eq (strays : Strays σ) (room : Nat) (precedence : Precedence) :
    dispatched strays room precedence = operand room precedence := by
  induction room generalizing precedence with
  | zero => rfl
  | succ room ih =>
    rw [dispatched, operand, show dispatched strays room = operand room from funext ih]
    simp only [dispatch_eq]

end Dispatch

section Tokens

private theorem readNumber_token (text : List Char) : FailsOnly .token (readNumber text).1 := by
  rw [readNumber]
  split
  · dsimp only
    rw [ofDecimal]
    split <;> simp [origin]
  · dsimp only
    rw [ofDigits]
    split <;> simp [origin]

private theorem readName_token (text : List Char) : FailsOnly .token (readName text).1 := by
  rw [readName]
  dsimp only
  rw [ofName]
  split <;> simp [origin]

/-- As a source of tokens a text gives what is read of it. -/
theorem next_token (text : List Char) : FailsOnly .token (Source.next text).1 := by
  change FailsOnly .token (readSolid (text.dropWhile Text.isBlank)).1
  fun_cases readSolid (text.dropWhile Text.isBlank) with
  | case10 => exact readNumber_token _
  | case11 => exact readName_token _
  | _ => simp [origin]

theorem next_error {text rest : List Char} (found : Source.next text = (.error fault, rest)) : origin fault = .token :=
  next_token text fault (congrArg Prod.fst found)

theorem next_refused {text : List Char} (refused : (Source.next text).1 = .error fault) :
    ∃ rest, Source.next text = (.error fault, rest) := ⟨_, Prod.ext refused rfl⟩

/-- The token at this index is refused, and those before it are not. -/
inductive Refused : List Char → Nat → Fault → Prop
  | here {text rest : List Char} {fault : Fault} (found : Source.next text = (.error fault, rest)) : Refused text 0 fault
  | there {text rest : List Char} {token : Token} {index : Nat} {fault : Fault} (found : Source.next text = (.ok token, rest))
      (proper : token ≠ .eof) (refused : Refused rest index fault) : Refused text (index + 1) fault

namespace Refused
variable {text rest : List Char} {index index' : Nat} {fault fault' : Fault} {token : Token}

/-- A text that goes on with a token is refused for what follows. -/
theorem of_next (found : Source.next text = (.ok token, rest)) (refused : Refused rest index fault) :
    Refused text (index + 1) fault := by
  refine .there found ?_ refused
  rintro rfl
  have ended := LawfulSource.ended found
  cases refused with
  | here found' => rw [ended] at found'; simp at found'
  | there found' proper => rw [ended] at found'; simp_all

theorem origin_eq (refused : Refused text index fault) : origin fault = .token := by
  induction refused with
  | here found => exact next_error found
  | there _ _ _ ih => exact ih

theorem unique (refused : Refused text index fault) (refused' : Refused text index' fault') : index = index' ∧ fault = fault' := by
  induction refused generalizing index' with
  | here found => cases refused' <;> simp_all
  | there found proper refused ih =>
    cases refused' with
    | here found' => simp_all
    | there found' proper' refused' =>
      obtain ⟨same, rfl⟩ := Prod.mk.inj (found.symm.trans found')
      obtain ⟨rfl, rfl⟩ := ih refused'
      exact ⟨rfl, rfl⟩

end Refused

end Tokens

section Evaluation

theorem ofFitted_operation (fitted : Option Int64) : FailsOnly .operation (Number.ofFitted fitted) := by
  cases fitted <;> simp [Number.ofFitted, origin]

theorem ofExact_operation (exact : Int) : FailsOnly .operation (Number.ofExact exact) :=
  ofFitted_operation (Number.fit? exact)

theorem sign_operation (sign : Sign) (operand : Number) : FailsOnly .operation (sign.apply operand) := by
  fun_cases Sign.apply sign operand with
  | case2 value => exact ofExact_operation _
  | _ => simp

theorem operator_operation (operator : Operator) (left right : Number) :
    FailsOnly .operation (operator.apply left right) := by
  rw [Operator.apply]
  split
  · simp [origin]
  · fun_cases Operator.applyNonzero operator left right with
    | case1 first second =>
      cases operator with
      | divide => exact failsOnly_ok _
      | floorDivide =>
        exact ofFitted_operation (Number.floorQuotient? first second)
      | _ => exact ofExact_operation _
    | case2 => exact failsOnly_ok _

theorem builtin_operation (function : Builtin) (arguments : List Number) :
    FailsOnly .operation (function.apply arguments) := by
  fun_cases Builtin.apply function arguments with
  | case1 value => exact ofExact_operation _
  | _ => simp [origin]

mutual
theorem evaluate_operation : ∀ tree : Expression, FailsOnly .operation tree.evaluate
  | .literal value => failsOnly_ok value
  | .signed sign operand => by
    rw [Expression.evaluate]
    exact (evaluate_operation operand).bind (sign_operation sign)
  | .binary operator left right => by
    rw [Expression.evaluate]
    exact (evaluate_operation left).bind fun first =>
      (evaluate_operation right).bind (operator_operation operator first)
  | .call builtin arguments => by
    rw [Expression.evaluate]
    exact (evaluateAll_operation arguments).bind (builtin_operation builtin)
termination_by structural tree => tree

theorem evaluateAll_operation : ∀ trees : List Expression, FailsOnly .operation (Expression.evaluateAll trees)
  | [] => failsOnly_ok []
  | first :: rest => by
    rw [Expression.evaluateAll]
    exact (evaluate_operation first).bind fun _ => (evaluateAll_operation rest).bind fun _ => failsOnly_ok _
termination_by structural trees => trees
end

theorem toInteger_error {value : Number} (failed : value.toInteger = .error fault) : fault = .notFinite := by
  revert failed
  fun_cases Number.toInteger value <;> simp [eq_comm]

end Evaluation

section Texts
variable {text : String} {failure : Failure} {before after : Reader}

/-- Two tokens and more have been taken, so what is refused from here on is refused behind them. -/
def Ahead (text : List Char) (reader : Reader) : Prop :=
  ∃ taken, 2 ≤ taken ∧ ∀ index fault, Refused reader.unread index fault → Refused text (taken + index) fault

/-- A fault of the phrase, or of a token behind the first two. -/
def Later (text : List Char) (fault : Fault) : Prop :=
  origin fault = .phrase ∨ ∃ index, 2 ≤ index ∧ Refused text index fault

private theorem advance_keeps (text : List Char) : Keeps (Ahead text) (Later text) Anything advance where
  yields := by
    rintro before ⟨⟩ after ⟨taken, far, refused⟩ moved
    obtain ⟨found, -, -⟩ := yields_advance.mp moved
    refine ⟨⟨taken + 1, by omega, fun index fault later => ?_⟩, trivial⟩
    have shifted := refused (index + 1) fault (later.of_next found)
    rwa [← Nat.add_assoc, Nat.add_right_comm] at shifted
  fails := by
    rintro before fault ⟨taken, far, refused⟩ failed
    obtain ⟨rest, found⟩ := next_refused (fails_advance.mp failed)
    exact .inr ⟨taken + 0, far, refused 0 fault (.here found)⟩

theorem whole_later {fault : Fault} (ahead : Ahead text.toList before) (failed : Fails whole before fault) :
    Later text.toList fault :=
  (whole_keeps (advance_keeps text.toList) fun _ => .inl).fails ahead failed

/-- A text is blank, or one of its first two tokens is refused, or both have been taken. -/
theorem ofSource_cases (text : List Char) :
    (Lookahead.ofSource text = .error .empty ∧ ∀ c ∈ text, Text.isBlank c = true) ∨
    (∃ index fault, index < 2 ∧ Refused text index fault ∧ Lookahead.ofSource text = .error fault) ∨
    ∃ reader, Lookahead.ofSource text = .ok reader ∧ Ahead text reader := by
  fun_cases Lookahead.ofSource text with
  | case1 fault rest found => exact .inr (.inl ⟨0, fault, by decide, .here found, rfl⟩)
  | case2 rest found =>
    have blank := (readSolid_end found).1
    exact .inl ⟨rfl, List.dropWhile_eq_nil_iff.mp blank⟩
  | case3 current unread proper found fault rest found' =>
    exact .inr (.inl ⟨1, fault, by decide, .there found proper (.here found'), rfl⟩)
  | case4 current unread proper found following rest found' =>
    refine .inr (.inr ⟨_, rfl, 2, le_refl _, fun index fault refused => ?_⟩)
    rw [Nat.add_comm]
    exact (refused.of_next found').of_next found

/-- Texts are refused in four ways: as blank, for one of the first two tokens, for what comes behind them, or for an
operation. -/
theorem evaluate_cases (failed : evaluate text = .error failure) :
    (failure = ⟨.empty, none⟩ ∧ ∀ c ∈ text.toList, Text.isBlank c = true) ∨
    (failure.position = none ∧ ∃ index < 2, Refused text.toList index failure.fault) ∨
    (failure.position.isSome ∧ Later text.toList failure.fault) ∨
    (failure.position = none ∧ origin failure.fault = .operation) := by
  rw [evaluate] at failed
  rcases bind_error.mp failed with unread | ⟨tree, -, failed⟩
  · rw [Expression.ofText, Expression.ofSource] at unread
    obtain ⟨opened, blank⟩ | ⟨index, fault, early, refused, opened⟩ | ⟨reader, opened, ahead⟩ := ofSource_cases text.toList
    · rw [opened] at unread
      cases unread
      exact .inl ⟨rfl, blank⟩
    · rw [opened] at unread
      cases unread
      exact .inr (.inl ⟨rfl, index, early, refused⟩)
    · rw [opened] at unread
      dsimp only at unread
      rw [Lookahead.expression] at unread
      split at unread
      next => contradiction
      next fault after ran =>
        cases unread
        exact .inr (.inr (.inl ⟨rfl, whole_later ahead ⟨after, ran⟩⟩))
  · split at failed
    next => contradiction
    next fault refused =>
      cases failed
      exact .inr (.inr (.inr ⟨rfl, evaluate_operation tree fault refused⟩))

theorem Later.origin_eq {fault : Fault} {text : List Char} (later : Later text fault) :
    origin fault = .phrase ∨ origin fault = .token :=
  later.imp_right fun ⟨_, _, refused⟩ => refused.origin_eq

/-- No text is at fault for what is found out elsewhere. -/
theorem origin_of_evaluate (failed : evaluate text = .error failure) : origin failure.fault ≠ .elsewhere := by
  obtain ⟨rfl, -⟩ | ⟨-, index, -, refused⟩ | ⟨-, later⟩ | ⟨-, operation⟩ := evaluate_cases failed
  · simp [origin]
  · simp [refused.origin_eq]
  · rcases later.origin_eq with later | later <;> simp [later]
  · simp [operation]

theorem evaluate_blank (blank : ∀ c ∈ text.toList, Text.isBlank c = true) : evaluate text = .error ⟨.empty, none⟩ := by
  have found : Source.next text.toList = (.ok .eof, []) := by
    change readSolid (text.toList.dropWhile Text.isBlank) = _
    rw [List.dropWhile_eq_nil_iff.mpr blank, readSolid]
  rw [evaluate, Expression.ofText, Expression.ofSource, ofSource_empty (all_end found)]
  rfl

/-- Which faults a text has, and which of them have a place. -/
structure Placed (text : String) (failure : Failure) : Prop where
  single : ∀ inner position, failure.fault.message ≠ (Failure.mk inner (some position)).message
  known : origin failure.fault ≠ .elsewhere
  phrase : origin failure.fault = .phrase → failure.position.isSome
  unplaced : origin failure.fault = .operation ∨ failure.fault = .empty → failure.position = none
  blank : failure.fault = .empty ↔ ∀ c ∈ text.toList, Text.isBlank c = true
  token : origin failure.fault = .token → (∃ index, Refused text.toList index failure.fault) ∧
    (failure.position = none ↔ ∃ index < 2, Refused text.toList index failure.fault)

theorem empty_iff_blank (failed : evaluate text = .error failure) :
    failure.fault = .empty ↔ ∀ c ∈ text.toList, Text.isBlank c = true := by
  constructor
  · intro empty
    have kind : origin failure.fault = .text := congrArg origin empty
    obtain ⟨-, blank⟩ | ⟨-, index, -, refused⟩ | ⟨-, later⟩ | ⟨-, operation⟩ := evaluate_cases failed
    · exact blank
    · simp [refused.origin_eq] at kind
    · rcases later.origin_eq with later | later <;> simp [later] at kind
    · simp [operation] at kind
  · intro blank
    obtain rfl := Except.error.inj (failed.symm.trans (evaluate_blank blank))
    rfl

theorem placed_of_evaluate (failed : evaluate text = .error failure) : Placed text failure where
  single inner position := message_ne failure.fault inner position
  known := origin_of_evaluate failed
  phrase phrase := by
    obtain ⟨rfl, -⟩ | ⟨-, index, -, refused⟩ | ⟨placed, -⟩ | ⟨-, operation⟩ := evaluate_cases failed
    · simp [origin] at phrase
    · simp [refused.origin_eq] at phrase
    · exact placed
    · simp [operation] at phrase
  unplaced kinds := by
    have kind : origin failure.fault = .operation ∨ origin failure.fault = .text := kinds.imp_right (congrArg origin)
    obtain ⟨rfl, -⟩ | ⟨unplaced, -⟩ | ⟨-, later⟩ | ⟨unplaced, -⟩ := evaluate_cases failed
    · rfl
    · exact unplaced
    · rcases later.origin_eq with later | later <;> simp [later] at kind
    · exact unplaced
  blank := empty_iff_blank failed
  token token := by
    obtain ⟨rfl, -⟩ | ⟨unplaced, index, early, refused⟩ | ⟨placed, phrase | ⟨index, far, refused⟩⟩ | ⟨-, operation⟩ :=
      evaluate_cases failed
    · simp [origin] at token
    · exact ⟨⟨index, refused⟩, fun _ => ⟨index, early, refused⟩, fun _ => unplaced⟩
    · simp [phrase] at token
    · refine ⟨⟨index, refused⟩, fun unplaced => by simp [unplaced] at placed, ?_⟩
      rintro ⟨index', early, refused'⟩
      have same := (refused.unique refused').1
      omega
    · simp [operation] at token

/-- A fault never holds another place, and only those found behind the first two tokens of a text and before evaluation have
one. Blank texts are the empty ones; and the parser never asks what a token is that is no operator. -/
theorem evaluate_places :
    (∀ text failure, evaluate text = .error failure → Placed text failure) ∧
    (∀ text : String, (∀ c ∈ text.toList, Text.isBlank c = true) → evaluate text = .error ⟨.empty, none⟩) ∧
    ∀ (strays : Strays (List Char)) room precedence, dispatched strays room precedence = Lookahead.operand room precedence :=
  ⟨fun _ _ => placed_of_evaluate, fun _ => evaluate_blank, dispatched_eq⟩

/-- What is refused third has a place, and what is refused second has none. -/
theorem evaluate_places_refused :
    (evaluate "1 +\t$" = .error ⟨.invalidCharacter '$', some 4⟩ ∧ Placed "1 +\t$" ⟨.invalidCharacter '$', some 4⟩) ∧
    (evaluate "(max2" = .error ⟨.unknownName "max2", none⟩ ∧ Placed "(max2" ⟨.unknownName "max2", none⟩) ∧
    (evaluate "1 / 0" = .error ⟨.divisionByZero, none⟩ ∧ Placed "1 / 0" ⟨.divisionByZero, none⟩) ∧
    (∀ c ∈ " \n".toList, Text.isBlank c = true) ∧ evaluate " \n" = .error ⟨.empty, none⟩ := by
  obtain ⟨placed, empty, -⟩ := evaluate_places
  have third : evaluate "1 +\t$" = .error ⟨.invalidCharacter '$', some 4⟩ := rfl
  have second : evaluate "(max2" = .error ⟨.unknownName "max2", none⟩ := rfl
  have division : evaluate "1 / 0" = .error ⟨.divisionByZero, none⟩ := rfl
  have blank : ∀ c ∈ " \n".toList, Text.isBlank c = true := by simp; decide
  exact ⟨⟨third, placed _ _ third⟩, ⟨second, placed _ _ second⟩, ⟨division, placed _ _ division⟩, blank, empty _ blank⟩

end Texts

end DiceNotation.Proofs.Faults

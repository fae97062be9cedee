import DiceNotation.Dice.Roll

/-! Runs in steps. A run that answers has an answer of each of its steps, and what it reports on the way decides
nothing. -/

namespace DiceNotation.Proofs.Runs

variable {ε δ α β : Type} {value : α}

theorem bind_ok {first : Except ε β} {next : β → Except ε α} :
    first >>= next = .ok value ↔ ∃ middle, first = .ok middle ∧ next middle = .ok value := by
  cases first <;> simp [bind, Except.bind]

theorem bind_error {first : Except ε β} {next : β → Except ε α} {failure : ε} :
    first >>= next = .error failure ↔ first = .error failure ∨ ∃ middle, first = .ok middle ∧ next middle = .error failure := by
  cases first <;> simp [bind, Except.bind]

theorem exists_of_isOk (answer : Except ε α) (ok : answer.isOk = true) : ∃ value, answer = .ok value := by
  cases answer with
  | ok value => exact ⟨value, rfl⟩
  | error failure => contradiction

@[simp] theorem mapError_of_ok {change : ε → δ} : (.ok value : Except ε α).mapError change = .ok value := rfl

@[simp] theorem mapError_of_error {failure : ε} {change : ε → δ} :
    (.error failure : Except ε α).mapError change = .error (change failure) := rfl

theorem mapError_ok {answer : Except ε α} {change : ε → δ} : answer.mapError change = .ok value ↔ answer = .ok value := by
  cases answer <;> simp

theorem mapError_error {answer : Except ε α} {change : ε → δ} {fault : δ} :
    answer.mapError change = .error fault ↔ ∃ failure, answer = .error failure ∧ change failure = fault := by
  cases answer <;> simp

theorem value_bind (first : Rolling α) (next : α → Rolling β) (words : Words) :
    ((first >>= next) words).value = (next (first words).value.1 (first words).value.2).value := rfl

theorem events_bind (first : Rolling α) (next : α → Rolling β) (words : Words) :
    ((first >>= next) words).events = (first words).events ++ (next (first words).value.1 (first words).value.2).events := rfl

theorem events_pure (value : α) (words : Words) : ((pure value : Rolling α) words).events = [] := rfl

theorem value_lift (logged : Logged α) (words : Words) : ((liftM logged : Rolling α) words).value = (logged.value, words) := rfl

theorem events_lift (logged : Logged α) (words : Words) : ((liftM logged : Rolling α) words).events = logged.events :=
  List.append_nil _

end DiceNotation.Proofs.Runs

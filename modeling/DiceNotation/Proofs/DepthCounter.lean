import DiceNotation.Proofs.ParallelReadings

/-! Readers that count how deep they are in operands. An operand is counted on the way in and taken off again on the way
out, also where it fails, so nothing is left of the count after a reading. Loops go round and operands go down for as long
as they can: a fault of its own shows where either runs out, and none does. -/

namespace DiceNotation.Proofs.DepthCounter
open Token Lookahead TokenSequence Reading Rounds ParallelReadings
open Expression (Fault Failure)

variable {σ α : Type}

/-- A source, and the number of operands that are being read from it. -/
structure Counted (σ : Type) where
  source : σ
  depth : Nat

instance [Source σ] : Source (Counted σ) where
  next counted := ((Source.next counted.source).1, { counted with source := (Source.next counted.source).2 })
  size counted := Source.size counted.source

instance [Source σ] [LawfulSource σ] : LawfulSource (Counted σ) where
  shrinks counted := LawfulSource.shrinks counted.source
  shorter := by
    intro counted rest token found proper
    obtain ⟨answer, rfl⟩ := Prod.mk.inj found
    have less : Source.size (Source.next counted.source).2 < Source.size counted.source :=
      LawfulSource.shorter (Prod.ext answer rfl) proper
    exact less
  ended := by
    intro counted rest found
    obtain ⟨answer, rfl⟩ := Prod.mk.inj found
    have again : Source.next (Source.next counted.source).2 = (.ok .eof, (Source.next counted.source).2) :=
      LawfulSource.ended (Prod.ext answer rfl)
    simp only [Source.next] at again ⊢
    rw [again]

def withDepth (depth : Nat) (reader : Lookahead σ) : Lookahead (Counted σ) :=
  { reader with unread := ⟨reader.unread, depth⟩ }

def deeper (reader : Lookahead (Counted σ)) : Lookahead (Counted σ) :=
  { reader with unread.depth := reader.unread.depth + 1 }

def shallower (reader : Lookahead (Counted σ)) : Lookahead (Counted σ) :=
  { reader with unread.depth := reader.unread.depth - 1 }

/-- Counts the reading while it lasts, whether it is answered or fails. -/
def counted (reading : Reading (Counted σ) α) : Reading (Counted σ) α := ExceptT.mk fun before =>
  let (answer, after) := reading.run (deeper before)
  (answer, shallower after)

theorem outcome_counted (reading : Reading (Counted σ) α) (before : Lookahead (Counted σ)) :
    outcome (counted reading) before =
      ((outcome reading (deeper before)).1, shallower (outcome reading (deeper before)).2) := rfl

section Operands
variable [Source σ]

/-- An operand that looks at the count for the limit of nesting. With this fault it fails if its loops or its levels run
out. -/
def countedOperand (spent : Fault) : Nat → Precedence → Reading (Counted σ) Grown
  | 0, _ => throw spent
  | levels + 1, precedence => do
    if (← get).unread.depth = maxDepth then throw (.tooDeep maxDepth)
    else
      counted <| levelBy (countedOperand spent levels)
        (do argumentLoop spent (countedOperand spent levels) (← roundLimit) ([], 0))
        (fun first => do chainLoop spent (countedOperand spent levels) precedence (← roundLimit) first)

def countedExpression (spent : Fault) (reader : Lookahead (Counted σ)) :
    Except Failure Expression × Lookahead (Counted σ) :=
  match (wholeBy (countedOperand spent (maxDepth + 1))).run reader with
  | (.ok tree, reader) => (.ok tree, reader)
  | (.error fault, reader) => (.error ⟨fault, some reader.position⟩, reader)

variable [LawfulSource σ] (spent : Fault)

omit [LawfulSource σ] in
theorem counted_narrows {reading : Reading (Counted σ) α} (narrows : Narrows reading) : Narrows (counted reading) := by
  intro bound before short
  exact .inl ((narrows bound).after (show ahead (deeper before) ≤ bound from short))

theorem countedOperand_loops {levels : Nat}
    (narrows : ∀ precedence, Narrows (countedOperand spent levels precedence : Reading (Counted σ) Grown))
    (precedence : Precedence) :
    Loops (countedOperand spent levels : Precedence → Reading (Counted σ) Grown) precedence
      (do argumentLoop spent (countedOperand spent levels) (← roundLimit) ([], 0))
      (fun first => do chainLoop spent (countedOperand spent levels) precedence (← roundLimit) first) :=
  ⟨argumentLoop_limit narrows spent _, chainLoop_limit narrows spent precedence⟩

theorem countedOperand_narrows (levels : Nat) (precedence : Precedence) :
    Narrows (countedOperand spent levels precedence : Reading (Counted σ) Grown) := by
  induction levels generalizing precedence with
  | zero => exact fun bound before short => .inl short
  | succ levels ih =>
    intro bound before short
    rw [countedOperand, outcome_get_bind]
    split
    · exact .inl short
    · exact counted_narrows (levelBy_narrows (countedOperand_loops spent ih precedence) ih) bound before short

def Beside (depth : Nat) (before : Lookahead σ) (before' : Lookahead (Counted σ)) : Prop := before' = withDepth depth before

omit [Source σ] [LawfulSource σ] in
theorem beside_views (depth : Nat) : Views (Beside depth : Lookahead σ → Lookahead (Counted σ) → Prop) := by
  rintro before _ rfl
  exact ⟨rfl, rfl⟩

omit [LawfulSource σ] in
theorem advance_beside (depth : Nat) :
    Follows (Beside depth) (fun _ => True) (advance : Reading σ Unit) (advance : Reading (Counted σ) Unit) where
  back _ _ := trivial
  same := by
    rintro before _ rfl -
    have found : Source.next (withDepth depth before).unread =
        ((Source.next before.unread).1, ⟨(Source.next before.unread).2, depth⟩) := rfl
    rw [outcome_advance, outcome_advance, found]
    rcases Source.next before.unread with ⟨fault | token, rest⟩
    · exact ⟨rfl, rfl⟩
    · exact ⟨rfl, rfl⟩

theorem operand_beside {room depth : Nat} (total : depth + room = maxDepth) (precedence : Precedence) :
    Follows (Beside depth) (fun _ => True) (Lookahead.operand room precedence : Reading σ Grown)
      (countedOperand spent (room + 1) precedence) := by
  induction room generalizing depth precedence with
  | zero =>
    -- The last level is spent on looking at the count.
    refine ⟨fun _ _ => trivial, ?_⟩
    rintro before _ rfl -
    rw [countedOperand, outcome_get_bind, if_pos (show (withDepth depth before).unread.depth = maxDepth from total)]
    exact ⟨rfl, rfl⟩
  | succ room ih =>
    refine ⟨fun _ _ => trivial, ?_⟩
    rintro before _ rfl -
    have inside : (withDepth depth before).unread.depth ≠ maxDepth := Nat.ne_of_lt (show depth < maxDepth by omega)
    have : Nonempty (Counted σ) := ⟨(withDepth depth before).unread⟩
    have level := levelBy_parallel (loops_of_narrows (operand_narrows (σ := σ) room) precedence)
      (countedOperand_loops (σ := σ) spent (countedOperand_narrows spent (room + 1)) precedence)
    have follows := level.follows (beside_views (depth + 1)) (advance_beside (depth + 1)) (ih (by omega))
    obtain ⟨answer, after⟩ := follows.same before (withDepth (depth + 1) before) rfl trivial
    rw [countedOperand, outcome_get_bind, if_neg inside, outcome_counted]
    exact ⟨answer, congrArg shallower after⟩

/-- A reader that counts is answered as one that does not, whatever would show that loops or levels have run out, and its
count is what it was before. -/
theorem countedExpression_eq (before : Lookahead σ) :
    countedExpression spent (withDepth 0 before) = (before.expression.1, withDepth 0 before.expression.2) := by
  have : Nonempty (Counted σ) := ⟨(withDepth 0 before).unread⟩
  have operands := operand_beside (σ := σ) spent (Nat.zero_add maxDepth)
  have follows := wholeBy_parallel.follows (beside_views 0) (advance_beside 0) operands
  obtain ⟨answer, after⟩ := follows.same before (withDepth 0 before) rfl trivial
  rw [← whole_eq] at answer after
  rcases ran : outcome whole before with ⟨ended, last⟩
  rw [ran] at answer after
  have here : whole.run before = (ended, last) := ran
  have there : (wholeBy (countedOperand spent (maxDepth + 1))).run (withDepth 0 before) = (ended, withDepth 0 last) :=
    Prod.ext answer after
  rw [countedExpression, Lookahead.expression, here, there]
  cases ended <;> rfl

end Operands

end DiceNotation.Proofs.DepthCounter

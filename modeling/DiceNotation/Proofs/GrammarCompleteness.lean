import DiceNotation.Proofs.Grammar
import DiceNotation.Proofs.Reading

/-! Every phrase is taken whole, whatever stands behind it, as long as no operator there holds its last
operand more tightly. The only other answer is that the phrase is too deep, and it is given exactly then. -/

namespace DiceNotation.Proofs.GrammarCompleteness
open Token Lookahead TokenSequence Reading Grammar

variable {σ : Type} [Source σ] [LawfulSource σ]
variable {before : Lookahead σ} {phrase rest : List Token} {tree : Expression}

def Fits (room levels : Nat) (tree : Expression) : Prop := levels ≤ room ∧ height tree ≤ maxDepth

/-- The reading ends with its last token still looked at. -/
def Takes (reading : Reading σ Grown) (phrase rest : List Token) (tree : Expression) (fits : Prop) : Prop :=
  ∀ ⦃before⦄, Sees before (phrase ++ rest) →
    (fits → ∃ after last, Yields reading before ⟨tree, height tree⟩ after ∧ Sees after (last :: rest)) ∧
      (¬ fits → Fails reading before (.tooDeep maxDepth))

/-- Reading an operand that begins with this phrase comes to where the phrase stands to the left of an operator. -/
def Enters (room : Nat) (precedence : Precedence) (before : Lookahead σ) (rest : List Token) (tree : Expression)
    (fits : Prop) : Prop :=
  (fits → ∃ middle last rounds, Sees middle (last :: rest) ∧ rest.length ≤ rounds ∧
    outcome (operand (room + 1) precedence) before =
      outcome (chain (operand room) precedence rounds ⟨tree, height tree⟩) middle) ∧
  (¬ fits → Fails (operand (room + 1) precedence) before (.tooDeep maxDepth))

/-- How a phrase of a layer is entered, in any room and before anything that may follow it. -/
def Entered (σ : Type) [Source σ] [LawfulSource σ] (layer : Layer) (levels : Nat) (phrase : List Token)
    (tree : Expression) : Prop :=
  ∀ (room : Nat) ⦃precedence : Precedence⦄ ⦃rest : List Token⦄ ⦃before : Lookahead σ⦄,
    precedence.rank < layer.rank → grip (rest.headD .eof) ≤ layer.rank → Sees before (phrase ++ rest) →
    Enters room precedence before rest tree (Fits (room + 1) levels tree)

private theorem chain_stops {operand : Precedence → Reading σ Grown} {precedence : Precedence} {rounds : Nat} {left : Grown}
    {last : Token} (sees : Sees before (last :: rest)) (loose : grip (rest.headD .eof) ≤ precedence.rank) :
    Yields (chain operand precedence rounds left) before left before := by
  have following : before.following = rest.headD .eof := sees.following
  cases rounds with
  | zero => exact yields_pure.mpr ⟨rfl, rfl⟩
  | succ rounds =>
    rw [chain, yields_get_bind, following]
    simp only [grip] at loose
    split
    next operator found =>
      rw [found] at loose
      rw [if_neg (Nat.not_lt.mpr loose), yields_pure]
      exact ⟨rfl, rfl⟩
    next => exact yields_pure.mpr ⟨rfl, rfl⟩

private theorem operand_takes {layer : Layer} {levels : Nat} {precedence : Precedence}
    (entered : Entered σ layer levels phrase tree)
    (positive : 1 ≤ levels) (above : precedence.rank < layer.rank) (loose : grip (rest.headD .eof) ≤ precedence.rank)
    (room : Nat) : Takes (operand room precedence : Reading σ Grown) phrase rest tree (Fits room levels tree) := by
  intro before sees
  cases room with
  | zero => exact ⟨fun fits => absurd fits.1 (by omega), fun _ => fails_throw.mpr rfl⟩
  | succ room =>
    obtain ⟨enters, fails⟩ := entered room above (loose.trans above.le) sees
    refine ⟨fun fits => ?_, fails⟩
    obtain ⟨middle, last, rounds, sees', -, same⟩ := enters fits
    exact ⟨middle, last, same.trans (chain_stops sees' loose), sees'⟩

private theorem enters_of_takes {room : Nat} {precedence : Precedence} {fits : Prop}
    (takes : Takes (primary (operand room) : Reading σ Grown) phrase rest tree fits) (sees : Sees before (phrase ++ rest)) :
    Enters room precedence before rest tree fits := by
  obtain ⟨taken, fails⟩ := takes sees
  refine ⟨fun fits => ?_, fun deep => ?_⟩
  · obtain ⟨middle, last, yields, sees'⟩ := taken fits
    refine ⟨middle, last, Source.size middle.unread + 1, sees', ?_, ?_⟩
    · have bound := sees'.length_le
      simp only [List.length_cons] at bound
      omega
    · rw [operand, yields.outcome_bind]
      rfl
  · rw [operand]
    exact (fails deep).bind

private theorem expectClosing_takes {last : Token} (sees : Sees before (last :: .rightParenthesis :: rest)) :
    ∃ after, Yields expectClosing before () after ∧ Sees after (.rightParenthesis :: rest) := by
  obtain ⟨after, moved, sees'⟩ := sees.advance
  refine ⟨after, ?_, sees'⟩
  have following : before.following = .rightParenthesis := sees.following
  rw [expectClosing, yields_get_bind, following]
  exact moved

private theorem number_takes (operand : Precedence → Reading σ Grown) (value : Number) :
    Takes (primary operand) [.number value] rest (.literal value) True := by
  intro before sees
  have current : before.current = .number value := sees.current
  refine ⟨fun _ => ⟨before, .number value, ?_, sees⟩, fun deep => absurd trivial deep⟩
  rw [primary, yields_get_bind, current]
  exact yields_pure.mpr ⟨rfl, rfl⟩

private theorem signed_takes {operand : Precedence → Reading σ Grown} (sign : Sign) {fits : Prop}
    (takes : Takes (operand .sign) phrase rest tree fits) :
    Takes (primary operand) (signToken sign :: phrase) rest (.signed sign tree) (fits ∧ height tree < maxDepth) := by
  intro before sees
  have current : before.current = signToken sign := sees.current
  obtain ⟨next, moved, sees'⟩ := sees.advance
  obtain ⟨taken, fails⟩ := takes sees'
  have reads {grown after} (yields : Yields (signed operand sign) before grown after) :
      Yields (primary operand) before grown after := by
    rw [primary, yields_get_bind, current]
    cases sign <;> exact yields
  have breaks {fault} (failed : Fails (signed operand sign) before fault) : Fails (primary operand) before fault := by
    rw [primary, fails_get_bind, current]
    cases sign <;> exact failed
  refine ⟨fun ⟨fits, low⟩ => ?_, fun deep => ?_⟩
  · obtain ⟨after, last, yields, sees''⟩ := taken fits
    refine ⟨after, last, ?_, sees''⟩
    apply reads
    apply moved.bind
    apply yields.bind
    exact (yields_above low).bind (yields_pure.mpr ⟨rfl, rfl⟩)
  · apply breaks
    by_cases fits : fits
    · obtain ⟨after, last, yields, -⟩ := taken fits
      have high : maxDepth ≤ height tree := Nat.not_lt.mp fun low => deep ⟨fits, low⟩
      apply moved.fails
      apply yields.fails
      exact (fails_above high).bind
    · exact moved.fails (fails fits).bind

private theorem group_takes {operand : Precedence → Reading σ Grown} {fits : Prop}
    (takes : Takes (operand .lowest) phrase (.rightParenthesis :: rest) tree fits) :
    Takes (primary operand) (.leftParenthesis :: phrase ++ [.rightParenthesis]) rest tree fits := by
  intro before sees
  have current : before.current = .leftParenthesis := sees.current
  obtain ⟨next, moved, sees'⟩ := sees.advance
  obtain ⟨taken, fails⟩ := takes (by simpa using sees')
  refine ⟨fun fits => ?_, fun deep => ?_⟩
  · obtain ⟨inside, last, yields, sees''⟩ := taken fits
    obtain ⟨after, closing, sees''⟩ := expectClosing_takes sees''
    refine ⟨after, .rightParenthesis, ?_, sees''⟩
    rw [primary, yields_get_bind, current]
    apply moved.bind
    apply yields.bind
    exact closing.bind (yields_pure.mpr ⟨rfl, rfl⟩)
  · rw [primary, fails_get_bind, current]
    exact moved.fails (fails deep).bind

section Arguments
variable {operand : Precedence → Reading σ Grown} {fits : Part → Prop}

def TakesParts (operand : Precedence → Reading σ Grown) (parts : List Part) (fits : Part → Prop) : Prop :=
  ∀ part ∈ parts, ∀ rest : List Token, grip (rest.headD .eof) ≤ Precedence.lowest.rank →
    Takes (operand .lowest) part.tokens rest part.tree (fits part)

private theorem argumentRounds_takes {parts : List Part} (some : parts ≠ []) (takes : TakesParts operand parts fits)
    (trees : List Expression) (height : Nat) {rounds : Nat} {opening : Token} (enough : parts.length ≤ rounds)
    (sees : Sees before (opening :: listed parts ++ .rightParenthesis :: rest)) :
    ((∀ part ∈ parts, fits part) → ∃ after, Sees after (.rightParenthesis :: rest) ∧
      Yields (argumentRounds operand rounds (trees, height)) before
        (trees ++ parts.map Part.tree, max height (tallest (parts.map Part.tree))) after) ∧
    ((¬ ∀ part ∈ parts, fits part) → Fails (argumentRounds operand rounds (trees, height)) before (.tooDeep maxDepth)) := by
  induction parts generalizing rounds height trees opening before with
  | nil => contradiction
  | cons first others ih =>
    have more : rounds ≠ 0 := by
      simp only [List.length_cons] at enough
      omega
    obtain ⟨rounds, rfl⟩ := Nat.exists_eq_add_one_of_ne_zero more
    obtain ⟨next, moved, sees'⟩ := sees.advance
    rw [argumentRounds]
    by_cases alone : others = []
    · subst alone
      obtain ⟨taken, fails⟩ := takes first (by simp) (.rightParenthesis :: rest) (Nat.zero_le _) sees'
      refine ⟨fun all => ?_, fun deep => moved.fails (fails fun fit => deep (by simpa using fit)).bind⟩
      obtain ⟨between, last, yields, sees''⟩ := taken (all first (by simp))
      have following : between.following = .rightParenthesis := sees''.following
      obtain ⟨after, closing, sees''⟩ := expectClosing_takes sees''
      refine ⟨after, sees'', ?_⟩
      apply moved.bind
      apply yields.bind
      rw [yields_get_bind, following]
      exact closing.bind (yields_pure.mpr ⟨by simp [addArgument, tallest], rfl⟩)
    · rw [listed_cons first alone] at sees'
      obtain ⟨taken, fails⟩ := takes first (by simp) (.comma :: listed others ++ .rightParenthesis :: rest)
        (Nat.zero_le _) (by simpa using sees')
      by_cases fit : fits first
      · obtain ⟨between, last, yields, sees''⟩ := taken fit
        have following : between.following = .comma := sees''.following
        obtain ⟨atComma, moved', sees''⟩ := sees''.advance
        obtain ⟨taken', fails'⟩ := ih alone (fun part member => takes part (List.mem_cons_of_mem _ member))
          (trees ++ [first.tree]) (max height (Grammar.height first.tree)) (by simpa using enough) sees''
        refine ⟨fun all => ?_, fun deep => ?_⟩
        · obtain ⟨after, sees''', yields'⟩ := taken' fun part member => all part (List.mem_cons_of_mem _ member)
          refine ⟨after, sees''', ?_⟩
          apply moved.bind
          apply yields.bind
          rw [yields_get_bind, following]
          exact moved'.bind (by simpa [addArgument, tallest, Nat.max_assoc] using yields')
        · apply moved.fails
          apply yields.fails
          rw [fails_get_bind, following]
          exact moved'.fails (fails' fun all => deep (List.forall_mem_cons.mpr ⟨fit, all⟩))
      · exact ⟨fun all => absurd (all first (by simp)) fit, fun _ => moved.fails (fails fit).bind⟩

private theorem arguments_takes {parts : List Part} {opening : Token}
    (each : ∀ part ∈ parts, Derives .expression part.levels part.tokens part.tree) (takes : TakesParts operand parts fits)
    (sees : Sees before (opening :: listed parts ++ .rightParenthesis :: rest)) :
    ((∀ part ∈ parts, fits part) → ∃ after, Sees after (.rightParenthesis :: rest) ∧
      Yields (arguments operand) before (parts.map Part.tree, tallest (parts.map Part.tree)) after) ∧
    ((¬ ∀ part ∈ parts, fits part) → Fails (arguments operand) before (.tooDeep maxDepth)) := by
  have following : before.following = (listed parts ++ .rightParenthesis :: rest).headD .eof := sees.following
  cases parts with
  | nil =>
    obtain ⟨after, moved, sees'⟩ := sees.advance
    refine ⟨fun _ => ⟨after, sees', ?_⟩, fun deep => absurd (by simp) deep⟩
    rw [arguments, yields_get_bind, following]
    exact moved.bind (yields_pure.mpr ⟨rfl, rfl⟩)
  | cons first others =>
    have some : ∀ part ∈ first :: others, part.tokens ≠ [] := by
      intro part member
      obtain ⟨token, rest, same, -⟩ := (each part member).begins
      simp [same]
    have enough : (first :: others).length ≤ Source.size before.unread + 1 := by
      have parts := length_le_listed some
      have tokens := sees.length_le
      simp only [List.length_cons, List.length_append] at parts tokens ⊢
      omega
    obtain ⟨taken, fails⟩ := argumentRounds_takes (by simp) takes [] 0 enough sees
    obtain ⟨token, rest', same, proper⟩ := (each first (by simp)).begins
    have following : before.following = token := by
      rw [following]
      cases others <;> simp [listed, same]
    refine ⟨fun all => ?_, fun deep => ?_⟩
    · obtain ⟨after, sees', yields⟩ := taken all
      refine ⟨after, sees', ?_⟩
      rw [arguments, yields_get_bind, following]
      split
      · contradiction
      · rw [yields_roundLimit_bind]
        simpa using yields
    · rw [arguments, fails_get_bind, following]
      split
      · contradiction
      · rw [fails_roundLimit_bind]
        exact fails deep

private theorem call_takes (function : Builtin) {parts : List Part}
    (each : ∀ part ∈ parts, Derives .expression part.levels part.tokens part.tree) (takes : TakesParts operand parts fits) :
    Takes (primary operand) (.function function :: .leftParenthesis :: listed parts ++ [.rightParenthesis]) rest
      (.call function (parts.map Part.tree)) ((∀ part ∈ parts, fits part) ∧ tallest (parts.map Part.tree) < maxDepth) := by
  intro before sees
  have current : before.current = .function function := sees.current
  have following : before.following = .leftParenthesis := sees.following
  obtain ⟨next, moved, sees'⟩ := sees.advance
  obtain ⟨taken, fails⟩ := arguments_takes each takes (by simpa using sees')
  refine ⟨fun ⟨all, low⟩ => ?_, fun deep => ?_⟩
  · obtain ⟨after, sees'', yields⟩ := taken all
    refine ⟨after, .rightParenthesis, ?_, sees''⟩
    rw [primary, yields_get_bind, current]
    change Yields (call operand function) before _ after
    rw [call, yields_get_bind, following]
    apply moved.bind
    apply yields.bind
    exact (yields_above low).bind (yields_pure.mpr ⟨by simp [height], rfl⟩)
  · rw [primary, fails_get_bind, current]
    change Fails (call operand function) before _
    rw [call, fails_get_bind, following]
    by_cases all : ∀ part ∈ parts, fits part
    · obtain ⟨after, sees'', yields⟩ := taken all
      have high : maxDepth ≤ tallest (parts.map Part.tree) := Nat.not_lt.mp fun low => deep ⟨all, low⟩
      apply moved.fails
      apply yields.fails
      exact (fails_above high).bind
    · exact moved.fails (fails all).bind

end Arguments

private theorem chain_joins {room : Nat} (rounds : Nat) {precedence : Precedence} (left : Expression) {right : Expression}
    {operator : Operator}
    {last : Token} {fits : Prop} (sees : Sees before (last :: operatorToken operator :: phrase ++ rest))
    (tighter : precedence.rank < operator.precedence.rank)
    (takes : Takes (operand room operator.precedence : Reading σ Grown) phrase rest right fits) :
    (fits ∧ max (height left) (height right) < maxDepth → ∃ after last, Sees after (last :: rest) ∧
      outcome (chain (operand room) precedence (rounds + 1) ⟨left, height left⟩) before =
        outcome (chain (operand room) precedence rounds ⟨.binary operator left right, height (.binary operator left right)⟩) after) ∧
    (¬ (fits ∧ max (height left) (height right) < maxDepth) →
      Fails (chain (operand room) precedence (rounds + 1) ⟨left, height left⟩) before (.tooDeep maxDepth)) := by
  have following : before.following = operatorToken operator := sees.following
  have unfolded : outcome (chain (operand room) precedence (rounds + 1) ⟨left, height left⟩) before = outcome (do
      advance
      advance
      let right ← operand room operator.precedence
      let height ← above (max (height left) right.height)
      chain (operand room) precedence rounds ⟨.binary operator left right.tree, height⟩) before := by
    rw [chain, outcome_get_bind, following, operator?_operatorToken]
    simp only [if_pos tighter]
  obtain ⟨atOperator, moved, sees'⟩ := sees.advance
  obtain ⟨next, moved', sees''⟩ := sees'.advance
  obtain ⟨taken, fails⟩ := takes sees''
  refine ⟨fun ⟨fits, low⟩ => ?_, fun deep => ?_⟩
  · obtain ⟨after, last, yields, sees'''⟩ := taken fits
    refine ⟨after, last, sees''', ?_⟩
    have measured : Yields (liftM (above (max (height left) (height right))) : Reading σ Nat) after
        (height (.binary operator left right)) after := yields_above low
    rw [unfolded, moved.outcome_bind, moved'.outcome_bind, yields.outcome_bind, measured.outcome_bind]
  · rw [Fails, unfolded]
    by_cases fits : fits
    · obtain ⟨after, last, yields, -⟩ := taken fits
      have high : maxDepth ≤ max (height left) (height right) := Nat.not_lt.mp fun low => deep ⟨fits, low⟩
      apply moved.fails
      apply moved'.fails
      apply yields.fails
      exact (fails_above high).bind
    · apply moved.fails
      apply moved'.fails
      exact (fails fits).bind

private theorem binary_entered {layer inner : Layer} {operator : Operator} {levels levels' : Nat} {phrase' : List Token}
    {left right : Expression} (rank : layer.rank = operator.precedence.rank) (tight : operator.precedence.rank < inner.rank)
    (positive : 1 ≤ levels') (first : Entered σ layer levels phrase left) (second : Entered σ inner levels' phrase' right) :
    Entered σ layer (max levels (levels' + 1)) (phrase ++ operatorToken operator :: phrase') (.binary operator left right) := by
  intro room precedence rest before above loose sees
  have split : Fits (room + 1) (max levels (levels' + 1)) (.binary operator left right) ↔
      Fits (room + 1) levels left ∧ Fits room levels' right ∧ max (height left) (height right) < maxDepth := by
    simp only [Fits, height]
    omega
  rw [split]
  rw [List.append_assoc] at sees
  obtain ⟨enters, fails⟩ := first room above (by simp [rank]) sees
  have takes := operand_takes second positive tight (rank ▸ loose) room
  by_cases fits : Fits (room + 1) levels left
  · obtain ⟨middle, last, rounds, sees', enough, same⟩ := enters fits
    have some : rounds ≠ 0 := by
      simp only [List.length_append, List.length_cons] at enough
      omega
    obtain ⟨rounds, rfl⟩ := Nat.exists_eq_add_one_of_ne_zero some
    obtain ⟨joined, breaks⟩ := chain_joins rounds left sees' (rank ▸ above) takes
    refine ⟨fun all => ?_, fun deep => ?_⟩
    · obtain ⟨after, last, sees'', same'⟩ := joined all.2
      refine ⟨after, last, rounds, sees'', ?_, same.trans same'⟩
      simp only [List.length_append, List.length_cons] at enough
      omega
    · rw [Fails, same]
      exact breaks fun rest => deep ⟨fits, rest⟩
  · exact ⟨fun all => absurd all.1 fits, fun _ => fails fits⟩

theorem entered {layer : Layer} {levels : Nat} (derives : Derives layer levels phrase tree) :
    Entered σ layer levels phrase tree := by
  induction derives with
  | number value =>
    intro room precedence rest before above loose sees
    have fits : Fits (room + 1) 1 (.literal value) ↔ True := by simp [Fits, height, maxDepth]
    rw [fits]
    exact enters_of_takes (number_takes _ value) sees
  | @group levels tokens tree inner ih =>
    intro room precedence rest before above loose sees
    have fits : Fits (room + 1) (levels + 1) tree ↔ Fits room levels tree := by simp [Fits]
    rw [fits]
    apply enters_of_takes ?_ sees
    apply group_takes
    exact operand_takes ih inner.levels_pos (by decide) (Nat.zero_le _) room
  | @call function parts each ih =>
    intro room precedence rest before above loose sees
    have fits : Fits (room + 1) (deepest parts + 1) (.call function (parts.map Part.tree)) ↔
        (∀ part ∈ parts, Fits room part.levels part.tree) ∧ tallest (parts.map Part.tree) < maxDepth := by
      have levels : deepest parts + 1 ≤ room + 1 ↔ ∀ part ∈ parts, part.levels ≤ room := Nat.succ_le_succ_iff.trans deepest_le
      constructor
      · intro ⟨fewer, low⟩
        have heights : ∀ part ∈ parts, height part.tree ≤ maxDepth := by simpa using tallest_le.mp (Nat.le_of_lt low)
        exact ⟨fun part member => ⟨levels.mp fewer part member, heights part member⟩, low⟩
      · intro ⟨all, low⟩
        exact ⟨levels.mpr fun part member => (all part member).1, low⟩
    rw [fits]
    apply enters_of_takes ?_ sees
    apply call_takes function each
    intro part member rest loose
    exact operand_takes (ih part member) (each part member).levels_pos (by decide) loose room
  | @signed sign levels tokens tree operand ih =>
    intro room precedence rest before above loose sees
    have fits : Fits (room + 1) (levels + 1) (.signed sign tree) ↔ Fits room levels tree ∧ height tree < maxDepth := by
      simp only [Fits, height]
      omega
    rw [fits]
    apply enters_of_takes ?_ sees
    apply signed_takes sign
    exact operand_takes ih operand.levels_pos (by decide) ((grip_le _).trans (by decide)) room
  | product multiplicative _ second ih ih' =>
    have rank := congrArg Precedence.rank (precedence_product multiplicative)
    exact binary_entered rank.symm (rank ▸ by decide) second.levels_pos ih ih'
  | sum additive _ second ih ih' =>
    have rank := congrArg Precedence.rank (precedence_sum additive)
    exact binary_entered rank.symm (rank ▸ by decide) second.levels_pos ih ih'
  | ofPrimary _ ih | ofFactor _ ih | ofTerm _ ih =>
    intro room precedence rest before above loose sees
    exact ih room (above.trans (by decide)) (loose.trans (by decide)) sees

private theorem whole_complete {levels : Nat} (derives : Derives .expression levels phrase tree)
    (sees : Sees before phrase) :
    (Fits maxDepth levels tree → ∃ after, Yields whole before tree after) ∧
      (¬ Fits maxDepth levels tree → Fails whole before (.tooDeep maxDepth)) := by
  have takes : Takes (operand maxDepth .lowest : Reading σ Grown) phrase [] tree (Fits maxDepth levels tree) :=
    operand_takes (entered derives) derives.levels_pos (by decide) (Nat.zero_le _) maxDepth
  obtain ⟨taken, fails⟩ := takes (by simpa using sees)
  refine ⟨fun fits => ?_, fun deep => (fails deep).bind⟩
  obtain ⟨after, last, yields, sees'⟩ := taken fits
  have following : after.following = .eof := sees'.following
  refine ⟨after, yields.bind ?_⟩
  rw [yields_get_bind, following]
  exact yields_pure.mpr ⟨rfl, rfl⟩

/-- A sentence is read as its tree, or refused because it is too deep. -/
theorem ofSource_complete {source : σ} {tokens : List Token} {levels : Nat} (lexed : all source = .ok tokens)
    (derives : Derives .expression levels tokens tree) :
    (Fits maxDepth levels tree → Expression.ofSource source = .ok tree) ∧
      (¬ Fits maxDepth levels tree → ∃ place, Expression.ofSource source = .error ⟨.tooDeep maxDepth, some place⟩) := by
  obtain ⟨first, others, same, -⟩ := derives.begins
  obtain ⟨reader, opened, sees⟩ := Sees.ofSource lexed (by simp [same])
  obtain ⟨taken, fails⟩ := whole_complete derives sees
  rw [Expression.ofSource, opened]
  refine ⟨fun fits => ?_, fun deep => ?_⟩
  · obtain ⟨after, yields⟩ := taken fits
    exact congrArg Prod.fst (expression_of_yields yields)
  · obtain ⟨after, failed⟩ := expression_of_fails (fails deep)
    exact ⟨after.position, congrArg Prod.fst failed⟩

end DiceNotation.Proofs.GrammarCompleteness

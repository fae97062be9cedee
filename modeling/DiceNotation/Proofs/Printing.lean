import DiceNotation.Proofs.Parsing
import DiceNotation.Proofs.Substitution

/-! Reading what a tree is written as. Its own parentheses keep every operation in place, so the tree comes back
as it was, but for the sign of a negative number, which is written as a sign. What was written can still be too
deep for the reader, because each pair of parentheses is a level of its own. -/

namespace DiceNotation.Proofs.Printing
open Token TokenSequence TextCuts Grammar GrammarCompleteness Substitution

/-- A negative integer is written as a sign and a number. -/
def spelledNumber : Number → Expression
  | .int value => if value < 0 then .signed .minus (.literal (.int (-value))) else .literal (.int value)
  | .float value => .literal (.float value)

mutual
def spelled : Expression → Expression
  | .literal value => spelledNumber value
  | .signed sign operand => .signed sign (spelled operand)
  | .binary operator left right => .binary operator (spelled left) (spelled right)
  | .call builtin arguments => .call builtin (spelledAll arguments)
termination_by structural expression => expression

def spelledAll : List Expression → List Expression
  | [] => []
  | first :: rest => spelled first :: spelledAll rest
termination_by structural expressions => expressions
end

mutual
/-- The levels that the text of a tree is read at. -/
def need : Expression → Nat
  | .literal _ => 1
  | .signed _ operand => 1 + need operand
  | .binary _ left right => 1 + max (need left) (1 + need right)
  | .call _ arguments => 1 + largestNeed arguments
termination_by structural expression => expression

def largestNeed : List Expression → Nat
  | [] => 0
  | first :: rest => max (need first) (largestNeed rest)
termination_by structural expressions => expressions
end

mutual
def numbers : Expression → List Number
  | .literal value => [value]
  | .signed _ operand => numbers operand
  | .binary _ left right => numbers left ++ numbers right
  | .call _ arguments => allNumbers arguments
termination_by structural expression => expression

def allNumbers : List Expression → List Number
  | [] => []
  | first :: rest => numbers first ++ allNumbers rest
termination_by structural expressions => expressions
end

mutual
def tokens : Expression → List Token
  | .literal value => [.number value]
  | .signed sign operand => signToken sign :: tokens operand
  | .binary operator left right =>
    .leftParenthesis :: (tokens left ++ operatorToken operator :: tokens right) ++ [.rightParenthesis]
  | .call builtin arguments => .function builtin :: .leftParenthesis :: listTokens arguments ++ [.rightParenthesis]
termination_by structural expression => expression

def listTokens : List Expression → List Token
  | [] => []
  | [last] => tokens last
  | first :: rest => tokens first ++ .comma :: listTokens rest
termination_by structural expressions => expressions
end

variable {tree : Expression} {arguments : List Expression}

section Levels

def part (tree : Expression) : Part := ⟨need tree, tokens tree, tree⟩

private theorem listed_part (arguments : List Expression) : listed (arguments.map part) = listTokens arguments := by
  induction arguments with
  | nil => rfl
  | cons first rest ih =>
    cases rest with
    | nil => rfl
    | cons second others => exact congrArg (tokens first ++ .comma :: ·) ih

private theorem deepest_part (arguments : List Expression) : deepest (arguments.map part) = largestNeed arguments := by
  induction arguments with
  | nil => rfl
  | cons first rest ih => exact congrArg (max (need first)) ih

mutual
/-- Every tree is what its own tokens derive, whatever it contains. -/
theorem derives_tokens (tree : Expression) : Derives .factor (need tree) (tokens tree) tree := by
  cases tree with
  | literal value => exact .ofPrimary (.number value)
  | signed sign operand =>
    rw [need, Nat.add_comm]
    exact .signed sign (derives_tokens operand)
  | binary operator left right =>
    have tight : operator.precedence.rank < Layer.rank .factor := by cases operator <;> decide
    obtain ⟨layer, -, derives⟩ := (derives_tokens left).join (derives_tokens right) tight.le tight
    have inner : Derives .expression _ _ _ := derives.widen (by cases layer <;> decide)
    rw [need, Nat.add_comm, Nat.add_comm 1 (need right)]
    exact .ofPrimary inner.group
  | call builtin arguments =>
    have call := Derives.call builtin (derives_arguments arguments)
    have trees : (arguments.map part).map Part.tree = arguments := by simp [Function.comp_def, part]
    rw [deepest_part, listed_part, trees] at call
    rw [need, Nat.add_comm]
    exact .ofPrimary call
termination_by structural tree

theorem derives_arguments (arguments : List Expression) :
    ∀ argument ∈ arguments.map part, Derives .expression argument.levels argument.tokens argument.tree := by
  cases arguments with
  | nil => simp
  | cons first rest =>
    exact List.forall_mem_cons.mpr ⟨.ofTerm (.ofFactor (derives_tokens first)), derives_arguments rest⟩
termination_by structural arguments
end

mutual
theorem height_le_need (tree : Expression) : height tree ≤ need tree := by
  cases tree with
  | literal value => exact Nat.le_refl 1
  | signed sign operand =>
    have inner := height_le_need operand
    rw [height, need]
    omega
  | binary operator left right =>
    have first := height_le_need left
    have second := height_le_need right
    rw [height, need]
    omega
  | call builtin arguments =>
    have inner := tallest_le_largestNeed arguments
    rw [height, need]
    omega
termination_by structural tree

theorem tallest_le_largestNeed (arguments : List Expression) : tallest arguments ≤ largestNeed arguments := by
  cases arguments with
  | nil => exact Nat.le_refl 0
  | cons first rest =>
    have here := height_le_need first
    have there := tallest_le_largestNeed rest
    rw [tallest, largestNeed]
    omega
termination_by structural arguments
end

theorem fits_iff_need : Fits maxDepth (need tree) tree ↔ need tree ≤ maxDepth :=
  ⟨fun fits => fits.1, fun low => ⟨low, (height_le_need tree).trans low⟩⟩

end Levels

section Texts
variable {text lead front back : List Char} {found first second : List Token}

/-- These tokens come of a text, whatever stands behind it. -/
def Leads (text : List Char) (found : List Token) : Prop := ∀ rest, all (text ++ rest) = (all rest).map (found ++ ·)

/-- These tokens come of a text where no number that it ends in goes on. -/
def Reads (text : List Char) (found : List Token) : Prop :=
  ∀ rest, Opened rest → all (text ++ rest) = (all rest).map (found ++ ·)

theorem Leads.reads (leads : Leads text found) : Reads text found := fun rest _ => leads rest

private theorem map_append (answer : Except Expression.Fault (List Token)) (first second : List Token) :
    (answer.map (second ++ ·)).map (first ++ ·) = answer.map (first ++ second ++ ·) := by
  cases answer <;> simp [Except.map]

theorem Leads.append (leads : Leads lead first) (reads : Reads text second) : Reads (lead ++ text) (first ++ second) := by
  intro rest opened
  rw [List.append_assoc, leads, reads rest opened, map_append]

theorem Reads.append (reads : Reads front first) (reads' : Reads back second) (opened : Opened back) (some : back ≠ []) :
    Reads (front ++ back) (first ++ second) := by
  intro rest opened'
  have stops : Opened (back ++ rest) := by rwa [Opened, List.head?_append_of_ne_nil _ some]
  rw [List.append_assoc, reads _ stops, reads' rest opened', map_append]

theorem Reads.whole (reads : Reads text found) : all text = .ok found := by
  have alone := reads [] (by simp [Opened])
  rw [List.append_nil, all_nil] at alone
  rw [alone]
  exact congrArg Except.ok (List.append_nil found)

private theorem leads_nil : Leads [] [] := by
  intro rest
  rw [List.nil_append]
  cases all rest <;> rfl

private theorem leads_next {token : Token} (next : ∀ rest, Source.next (text ++ rest) = (.ok token, back ++ rest))
    (proper : token ≠ .eof) (leads : Leads back found) : Leads text (token :: found) := by
  intro rest
  rw [all_token (next rest) proper, leads rest]
  exact map_append _ [token] found

private theorem leads_left : Leads ['('] [.leftParenthesis] := leads_next (fun _ => rfl) (by simp) leads_nil

private theorem leads_right : Leads [')'] [.rightParenthesis] := leads_next (fun _ => rfl) (by simp) leads_nil

theorem leads_sign (sign : Sign) : Leads sign.symbol.toList [signToken sign] := by
  cases sign <;> exact leads_next (fun _ => rfl) (by simp [signToken]) leads_nil

private theorem leads_blank : Leads [' '] [] := by
  intro rest
  rw [all_of_blank (List.forall_mem_singleton.mpr rfl)]
  cases all rest <;> rfl

private theorem leads_operator (operator : Operator) :
    Leads (' ' :: operator.symbol.toList ++ [' ']) [operatorToken operator] := by
  cases operator <;> exact leads_next (fun _ => rfl) (by simp [operatorToken]) leads_blank

private theorem leads_comma : Leads [',', ' '] [.comma] := leads_next (fun _ => rfl) (by simp) leads_blank

private theorem leads_function (builtin : Builtin) :
    Leads (builtin.name.toList ++ ['(']) [.function builtin, .leftParenthesis] := by
  cases builtin <;> exact leads_next (fun _ => rfl) (by simp) leads_left

def Legible (value : Number) : Prop := Reads value.text.toList (tokens (spelledNumber value))

mutual
/-- A tree is written in the tokens of its spelling, as long as its numbers are. -/
theorem reads_text {tree : Expression} (legible : ∀ value ∈ numbers tree, Legible value) :
    Reads tree.text.toList (tokens (spelled tree)) := by
  cases tree with
  | literal value => exact legible value (by simp [numbers])
  | signed sign operand =>
    rw [Expression.text, String.toList_append]
    exact (leads_sign sign).append (reads_text legible)
  | binary operator left right =>
    rw [numbers, List.forall_mem_append] at legible
    have closing := (reads_text legible.2).append leads_right.reads (by simp [Opened]) (by simp)
    have behind := (leads_operator operator).append closing
    have inner := (reads_text legible.1).append behind (by simp [Opened]) (by simp)
    have whole := leads_left.append inner
    simp only [Expression.text, String.toList_append, spelled, tokens]
    simpa using whole
  | call builtin arguments =>
    have inner := (reads_listText legible).append leads_right.reads (by simp [Opened]) (by simp)
    have whole := (leads_function builtin).append inner
    simp only [Expression.text, String.toList_append, spelled, tokens]
    simpa using whole
termination_by structural tree

theorem reads_listText {arguments : List Expression} (legible : ∀ value ∈ allNumbers arguments, Legible value) :
    Reads (Expression.listText arguments).toList (listTokens (spelledAll arguments)) := by
  match arguments with
  | [] => exact leads_nil.reads
  | [last] => exact reads_text fun value member => legible value (List.mem_append_left _ member)
  | first :: second :: rest =>
    rw [allNumbers, List.forall_mem_append] at legible
    have others : Reads (Expression.listText (second :: rest)).toList _ := reads_listText legible.2
    have behind := leads_comma.append others
    have whole := (reads_text legible.1).append behind (by simp [Opened]) (by simp)
    simpa [Expression.listText, spelledAll, listTokens] using whole
termination_by structural arguments
end

end Texts

/-- The text of a legible tree is read as its spelling, up to the levels that the reader has and no further. -/
theorem ofText_legible (legible : ∀ value ∈ numbers tree, Legible value) :
    (need (spelled tree) ≤ maxDepth → Expression.ofText tree.text = .ok (spelled tree)) ∧
      (maxDepth < need (spelled tree) → ∃ place, Expression.ofText tree.text = .error ⟨.tooDeep maxDepth, some place⟩) := by
  have derives : Derives .expression _ _ (spelled tree) := .ofTerm (.ofFactor (derives_tokens (spelled tree)))
  obtain ⟨taken, refused⟩ := ofSource_complete (reads_text legible).whole derives
  rw [fits_iff_need] at taken refused
  exact ⟨taken, fun deep => refused (Nat.not_le.mpr deep)⟩

/-- The integers whose negation has a word of its own. -/
def Negatable : Number → Prop
  | .int value => Int64.minValue < value
  | .float _ => False

instance : DecidablePred Negatable
  | .int value => inferInstanceAs (Decidable (Int64.minValue < value))
  | .float _ => instDecidableFalse

private theorem reads_nonneg {value : Int64} (nonneg : 0 ≤ value.toInt) :
    Reads (written value) [.number (.int value)] := by
  intro rest opened
  rw [all_written opened, all_written_nonneg nonneg]
  cases all rest <;> rfl

theorem legible_int {value : Int64} (negatable : Int64.minValue < value) : Legible (.int value) := by
  rw [Int64.lt_iff_toInt_lt] at negatable
  by_cases negative : value < 0
  · have below : value.toInt < 0 := Int64.lt_iff_toInt_lt.mp negative
    have least : Int64.minValue.toInt = -2 ^ 63 := by decide
    have negated : (-value).toInt = -value.toInt := by
      rw [Int64.toInt_neg]
      exact Int.bmod_eq_of_le (by omega) (by omega)
    have nonneg : 0 ≤ (-value).toInt := by omega
    have digits := (leads_sign .minus).append (reads_nonneg nonneg)
    rw [written_nonneg nonneg, negated] at digits
    have same : (-value.toInt).toNat = value.toInt.natAbs := by omega
    rw [Legible, spelledNumber, if_pos negative]
    change Reads (written value) _
    rw [written_neg below, ← same]
    exact digits
  · have above : 0 ≤ value.toInt := by
      rw [Int64.lt_iff_toInt_lt] at negative
      simpa using negative
    rw [Legible, spelledNumber, if_neg negative]
    exact reads_nonneg above

theorem legible_negatable {value : Number} (negatable : Negatable value) : Legible value := by
  cases value with
  | int value => exact legible_int negatable
  | float value => exact negatable.elim

/-- What is printed parses to the same tree, with negative numbers spelled as negations, unless it nests too deep. -/
theorem ofText_text (negatable : ∀ value ∈ numbers tree, Negatable value) :
    (need (spelled tree) ≤ maxDepth → Expression.ofText tree.text = .ok (spelled tree)) ∧
      (maxDepth < need (spelled tree) → ∃ place, Expression.ofText tree.text = .error ⟨.tooDeep maxDepth, place⟩) := by
  obtain ⟨taken, refused⟩ := ofText_legible fun value member => legible_negatable (negatable value member)
  refine ⟨taken, fun deep => ?_⟩
  obtain ⟨place, failed⟩ := refused deep
  exact ⟨some place, failed⟩

theorem ofText_text_mixed :
    (∀ value ∈ numbers (.call .max [.literal (.int (-3)),
      .binary .subtract (.literal (.int 4)) (.literal (.int 0)), .call .abs []]), Negatable value) ∧
    Expression.ofText "max(-3, (4 - 0), abs())" = .ok (.call .max [.signed .minus (.literal (.int 3)),
      .binary .subtract (.literal (.int 4)) (.literal (.int 0)), .call .abs []]) := by
  have negatable : ∀ value ∈ numbers (.call .max [.literal (.int (-3)),
      .binary .subtract (.literal (.int 4)) (.literal (.int 0)), .call .abs []]), Negatable value := by
    decide
  exact ⟨negatable, (ofText_text negatable).1 (by decide)⟩

end DiceNotation.Proofs.Printing

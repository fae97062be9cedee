import DiceNotation.Proofs.DecimalReading
import DiceNotation.Proofs.Printing

/-! Decimals that are written with digits and a point alone. They are read as the doubles that they were written for,
which is as much as an expression's reader knows of decimals. -/

namespace DiceNotation.Proofs.DecimalText
open Token TokenSequence TextCuts Substitution Printing
open Decimal ShortestDecimal DoubleBits DecimalReading

variable {mantissa : Nat} {exponent : Int} {x : Float} {decimal : Decimal} {whole places back : List Char}

/-- A decimal that is written without a sign and without an exponent. -/
def Plain : Number → Prop
  | .int _ => True
  | .float x => ∀ c ∈ (Decimal.Binary.ofFloat x).text, c.isDigit = true ∨ c = '.'

instance : DecidablePred Plain
  | .int _ => instDecidableTrue
  | .float x => List.decidableBAll _ (Decimal.Binary.ofFloat x).text

/-- Digits on both sides of a point, and what they come to. -/
structure Pointed (text whole places : List Char) (amount : ℚ) : Prop where
  parts : text = whole ++ '.' :: places
  front : ∀ c ∈ whole, c.isDigit = true
  back : ∀ c ∈ places, c.isDigit = true
  some : whole ≠ []
  placed : places ≠ []
  amount : (Nat.ofDigitChars 10 (whole ++ places) 0 : ℚ) / 10 ^ places.length = amount

theorem next_decimal (number : ∀ c ∈ whole, c.isDigit = true) (number' : ∀ c ∈ places, c.isDigit = true)
    (some : whole ≠ []) (opened : Opened back) :
    Source.next (whole ++ '.' :: places ++ back) = (ofDecimal whole places, back) := by
  obtain ⟨c, others, rfl⟩ := List.exists_cons_of_ne_nil some
  have digit : c.isDigit = true := number c (by simp)
  have solid : Text.isBlank c = false := isBlank_of_word (digit_word digit)
  have stops : back.takeWhile Char.isDigit = [] ∧ back.dropWhile Char.isDigit = back := by
    cases back with
    | nil => exact ⟨rfl, rfl⟩
    | cons first rest => simp [(opened first rfl).1]
  have taken : (c :: others ++ '.' :: places ++ back).takeWhile Char.isDigit = c :: others := by
    rw [List.append_assoc, List.takeWhile_append_of_pos number]
    simp
  have left : (c :: others ++ '.' :: places ++ back).dropWhile Char.isDigit = '.' :: (places ++ back) := by
    rw [List.append_assoc, List.dropWhile_append_of_pos number]
    simp
  change readSolid ((c :: others ++ '.' :: places ++ back).dropWhile Text.isBlank) = _
  rw [List.cons_append, List.cons_append, List.dropWhile_cons_of_neg (by simp [solid]), readSolid_word (digit_word digit),
    if_pos (by simp [digit]), ← List.cons_append, ← List.cons_append, readNumber, taken, left]
  change (ofDecimal _ ((places ++ back).takeWhile Char.isDigit), (places ++ back).dropWhile Char.isDigit) = _
  rw [List.takeWhile_append_of_pos number', List.dropWhile_append_of_pos number', stops.1, stops.2, List.append_nil]

private theorem digits_zeros (n : Nat) : ∀ c ∈ List.replicate n '0', c.isDigit = true := by
  intro c member
  rw [List.eq_of_mem_replicate member]
  decide

private theorem pointed_integral (digits zeros : Nat) :
    Pointed (Decimal.positional ⟨digits, zeros⟩) (Nat.toDigits 10 digits ++ List.replicate zeros '0') ['0']
      (value ⟨digits, zeros⟩) := by
  refine ⟨by simp [Decimal.positional], ?_, by simp, by simp [Nat.toDigits_ne_nil], by simp, ?_⟩
  · exact List.forall_mem_append.mpr ⟨digits_toDigits digits, digits_zeros zeros⟩
  · rw [Nat.ofDigitChars_append, Nat.ofDigitChars_append, Nat.ofDigitChars_ten_toDigits, Nat.ofDigitChars_replicate_zero]
    have last : Nat.ofDigitChars 10 ['0'] (10 ^ zeros * digits) = 10 ^ zeros * digits * 10 := by
      simp [Nat.ofDigitChars_cons, Nat.mul_comm]
    rw [last, value, zpow_natCast]
    push_cast
    rw [List.length_singleton, pow_one, mul_div_cancel_right₀ _ (by norm_num), mul_comm]

private theorem pointed_fractional (digits : Nat) {count : Nat} (positive : 0 < count) : ∃ whole places,
    Pointed (Decimal.positional ⟨digits, -count⟩) whole places (value ⟨digits, -count⟩) := by
  generalize padding : List.replicate (count + 1 - (Nat.toDigits 10 digits).length) '0' ++ Nat.toDigits 10 digits = padded
  have long : count < padded.length := by
    rw [← padding, List.length_append, List.length_replicate]
    omega
  have each : ∀ c ∈ padded, c.isDigit = true := by
    rw [← padding]
    exact List.forall_mem_append.mpr ⟨digits_zeros _, digits_toDigits digits⟩
  have same : Nat.ofDigitChars 10 padded 0 = digits := by
    rw [← padding, Nat.ofDigitChars_append, Nat.ofDigitChars_replicate_zero, Nat.mul_zero, Nat.ofDigitChars_ten_toDigits]
  have length : (padded.drop (padded.length - count)).length = count := by
    rw [List.length_drop]
    omega
  refine ⟨padded.take (padded.length - count), padded.drop (padded.length - count), ?_,
    fun c member => each c (List.mem_of_mem_take member), fun c member => each c (List.mem_of_mem_drop member), ?_, ?_, ?_⟩
  · have negative : ¬ 0 ≤ -(count : Int) := by omega
    have amount : (- -(count : Int)).toNat = count := by omega
    simp only [Decimal.positional, if_neg negative, amount, padding]
  · exact List.ne_nil_of_length_pos (by rw [List.length_take]; omega)
  · exact List.ne_nil_of_length_pos (by omega)
  · rw [List.take_append_drop, same, length, value, zpow_neg, zpow_natCast, div_eq_mul_inv]

/-- The positional form of a decimal comes to its value. -/
theorem pointed_positional (decimal : Decimal) :
    ∃ whole places, Pointed decimal.positional whole places (value decimal) := by
  rcases decimal with ⟨digits, zeros | count⟩
  · exact ⟨_, _, pointed_integral digits zeros⟩
  · exact pointed_fractional digits (Nat.succ_pos count)

/-- A decimal whose first digit stands no further back than at the fourth place. -/
theorem value_ge (some : 0 < decimal.digits) (leading : -4 ≤ decimal.leadingPlace) :
    (10 : ℚ) ^ (-4 : Int) ≤ value decimal := by
  rcases decimal with ⟨digits, exponent⟩
  rw [Decimal.leadingPlace] at leading
  generalize size : (Nat.toDigits 10 digits).length = length at leading
  have least : 10 ^ (length - 1) ≤ digits := by
    rcases Nat.lt_or_ge 1 length with long | short
    · by_contra small
      have := (Nat.length_toDigits_le_iff (by decide) (by omega)).mpr (Nat.lt_of_not_le small)
      omega
    · rw [Nat.sub_eq_zero_of_le short]
      exact some
  have positive : 0 < length := size ▸ Nat.length_toDigits_pos
  calc (10 : ℚ) ^ (-4 : Int) ≤ 10 ^ (((length - 1 : Nat) : Int) + exponent) :=
        zpow_le_zpow_right₀ (by norm_num) (by dsimp only at leading; omega)
    _ = ((10 ^ (length - 1) : Nat) : ℚ) * 10 ^ exponent := by
      rw [zpow_add₀ (by norm_num), zpow_natCast]
      push_cast
      rfl
    _ ≤ digits * 10 ^ exponent := by gcongr

/-- Numbers that are not tiny are of full length. -/
theorem full_of_value {amount : ℚ} (finite : Decimal.Binary.ofFloat x = .finite false mantissa exponent)
    (attracts : Attracts (Basin.ofFinite mantissa exponent) amount) (large : (10 : ℚ) ^ (-4 : Int) ≤ amount) :
    Full mantissa exponent ∧ -1074 < exponent := by
  have above : mantissa < 2 ^ 53 → -1074 < exponent := by
    intro small
    by_contra low
    have tiny : amount < 10 ^ (-4 : Int) :=
      calc amount ≤ ((4 * mantissa + 2 : Nat) : ℚ) * 2 ^ (exponent - 2) := attracts.within.2
        _ ≤ 2 ^ 55 * 2 ^ (exponent - 2) := by
          gcongr
          norm_cast
          omega
        _ = 2 ^ (55 + (exponent - 2)) := by
          rw [zpow_add₀ (by norm_num)]
          norm_cast
        _ ≤ 2 ^ (-14 : Int) := zpow_le_zpow_right₀ (by norm_num) (by omega)
        _ < 10 ^ (-4 : Int) := by norm_num
    exact absurd large (not_le.mpr tiny)
  obtain ⟨⟨small, least, -⟩ | ⟨full, -⟩, -⟩ := ofFloat_finite finite
  · have := above (by omega)
    omega
  · exact ⟨full, above full.small⟩

private theorem places_le {digits count : Nat} (large : (10 : ℚ) ^ (-4 : Int) ≤ digits / 10 ^ count) :
    0 < digits ∧ count ≤ 2048 + digits.log2 := by
  have positive : (0 : ℚ) < 10 ^ count := by positivity
  have cleared : 10 ^ count ≤ digits * 10 ^ 4 := by
    rw [le_div_iff₀ positive, zpow_neg, inv_mul_le_iff₀ (by positivity)] at large
    have cast : ((10 ^ count : Nat) : ℚ) ≤ (digits * 10 ^ 4 : Nat) := by
      push_cast
      rw [mul_comm]
      exact_mod_cast large
    exact_mod_cast cast
  have twos : 2 ^ count ≤ 10 ^ count := Nat.pow_le_pow_left (by decide) count
  have length : 2 ^ count < 2 ^ (digits.log2 + 15) :=
    calc 2 ^ count ≤ digits * 10 ^ 4 := twos.trans cleared
      _ < 2 ^ (digits.log2 + 1) * 2 ^ 14 := Nat.mul_lt_mul_of_lt_of_le Nat.lt_log2_self (by decide) (by decide)
      _ = 2 ^ (digits.log2 + 15) := by rw [← Nat.pow_add]
  have short := (Nat.pow_lt_pow_iff_right (by decide)).mp length
  refine ⟨Nat.pos_of_ne_zero ?_, by omega⟩
  rintro rfl
  have := Nat.pow_pos (n := count) (show 0 < 10 by decide)
  omega

/-- A positive double that is written in positional form is read back from it. -/
theorem ofDecimal_positional {amount : ℚ} {text : List Char}
    (finite : Decimal.Binary.ofFloat x = .finite false mantissa exponent)
    (attracts : Attracts (Basin.ofFinite mantissa exponent) amount) (large : (10 : ℚ) ^ (-4 : Int) ≤ amount)
    (pointed : Pointed text whole places amount) : ofDecimal whole places = .ok (.number (.float x)) := by
  obtain ⟨full, least⟩ := full_of_value finite attracts large
  rw [← pointed.amount] at attracts large
  obtain ⟨some, near⟩ := places_le large
  have placed := List.length_pos_of_ne_nil pointed.placed
  rw [ofDecimal, if_neg fun empty => pointed.some empty.1]
  rw [ofScientific_eq finite full least some placed near attracts]

theorem Pointed.reads {amount : ℚ} {text : List Char} {token : Token} (pointed : Pointed text whole places amount)
    (read : ofDecimal whole places = .ok token) (proper : token ≠ .eof) : Reads text [token] := by
  intro rest opened
  have next := next_decimal pointed.front pointed.back pointed.some opened
  rw [read, ← pointed.parts] at next
  exact all_token next proper

private theorem digits_pos (positive : 0 < mantissa)
    (attracts : Attracts (Basin.ofFinite mantissa exponent) (value decimal)) : 0 < decimal.digits := by
  refine Nat.pos_of_ne_zero fun none => ?_
  have low : 0 < (Basin.ofFinite mantissa exponent).low := by
    simp only [Basin.ofFinite]
    split <;> omega
  have below := attracts.within.1
  rw [value, none, Nat.cast_zero, zero_mul] at below
  have above : (0 : ℚ) < (Basin.ofFinite mantissa exponent).low * 2 ^ (Basin.ofFinite mantissa exponent).unit := by
    positivity
  exact absurd below (not_le.mpr above)

private theorem scientific_exponent (decimal : Decimal) : 'e' ∈ decimal.scientific := by
  rw [Decimal.scientific]
  split
  next none => exact absurd none Nat.toDigits_ne_nil
  next => simp

private theorem plain_cases (plain : Plain (.float x)) : ∃ mantissa exponent,
    Decimal.Binary.ofFloat x = .finite false mantissa exponent ∧
    (mantissa ≠ 0 → -4 ≤ (shortest mantissa exponent).leadingPlace ∧
      (Decimal.Binary.ofFloat x).text = (shortest mantissa exponent).positional) := by
  rw [Plain] at plain
  cases form : Decimal.Binary.ofFloat x with
  | nan =>
    rw [form] at plain
    exact absurd (plain 'N' (by simp [Decimal.Binary.text])) (by decide)
  | infinite negative =>
    rw [form] at plain
    exact absurd (plain 'i' (by simp [Decimal.Binary.text])) (by decide)
  | finite negative mantissa exponent =>
    rw [form] at plain
    cases negative with
    | true => exact absurd (plain '-' (by simp [Decimal.Binary.text, Decimal.Binary.signText])) (by decide)
    | false =>
      refine ⟨mantissa, exponent, rfl, fun some => ?_⟩
      simp only [Decimal.Binary.text, Decimal.Binary.signText, Bool.false_eq_true, if_false, List.nil_append,
        if_neg some] at plain ⊢
      rw [Decimal.text] at plain ⊢
      split at plain
      next range => exact ⟨range.1, if_pos range⟩
      next => exact absurd (plain 'e' (scientific_exponent _)) (by decide)

theorem legible_float (plain : Plain (.float x)) : Legible (.float x) := by
  obtain ⟨mantissa, exponent, finite, written⟩ := plain_cases plain
  have text : (Number.float x).text.toList = (Decimal.Binary.ofFloat x).text := String.toList_ofList
  rw [Legible, text]
  by_cases zero : mantissa = 0
  · subst zero
    have pointed : Pointed ['0', '.', '0'] ['0'] ['0'] 0 :=
      ⟨rfl, by simp, by simp, by simp, by simp, by simp [Nat.ofDigitChars_cons]⟩
    have read : ofDecimal ['0'] ['0'] = .ok (.number (.float x)) := by
      rw [← ofScientific_zero finite]
      rfl
    rw [finite]
    exact pointed.reads read (by simp)
  · obtain ⟨leading, positional⟩ := written zero
    have positive := Nat.pos_of_ne_zero zero
    have attracts : Attracts (Basin.ofFinite mantissa exponent) (value (shortest mantissa exponent)) := by
      obtain ⟨⟨small, rfl, -⟩ | ⟨full, -⟩, -⟩ := ofFloat_finite finite
      · exact attracts_shortest positive (by omega) (by decide) (by decide)
      · exact attracts_shortest positive full.small full.least full.most
    have large := value_ge (digits_pos positive attracts) leading
    obtain ⟨whole, places, pointed⟩ := pointed_positional (shortest mantissa exponent)
    rw [positional]
    exact pointed.reads (ofDecimal_positional finite attracts large pointed) (by simp)

end DiceNotation.Proofs.DecimalText

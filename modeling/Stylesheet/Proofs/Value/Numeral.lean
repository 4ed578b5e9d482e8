/-
# The text of a number

A number is written as a numeral: perhaps a minus sign, digits, and perhaps decimals after a
full stop (`Number.Numeral`).  It has no zero that could be left out and at most five decimals
(`Number.Numeral.Canonical`), and it stands for the number itself if that is whole, and for the
multiple of 10⁻⁵ nearest to it otherwise, a tie going to the even one (`Value.css_number`).
-/

import Stylesheet.Proofs.Value.Nearest

namespace Stylesheet
namespace Number

/-- A number as it is written. -/
structure Numeral where
  /-- Whether there is a minus sign. -/
  negative : Bool
  /-- The digits before the full stop. -/
  whole : List Char
  /-- The digits after the full stop, which is not written if there are none. -/
  decimals : List Char

namespace Numeral

/-- The characters of a numeral. -/
def chars (a : Numeral) : List Char :=
  (if a.negative then ['-'] else []) ++ a.whole ++
    if a.decimals = [] then [] else '.' :: a.decimals

/-- The number that a numeral stands for. -/
def value (a : Numeral) : ℚ :=
  (if a.negative then -1 else 1) *
    (Nat.ofDigitChars 10 (a.whole ++ a.decimals) 0 / 10 ^ a.decimals.length)

/-- A numeral of digits alone, with one of them at least before the full stop and five at most
after it, that has no zero more than it needs at either end. -/
structure Canonical (a : Numeral) : Prop where
  digits : ∀ c ∈ a.whole ++ a.decimals, c.isDigit
  whole : a.whole = ['0'] ∨ ∃ c cs, a.whole = c :: cs ∧ c ≠ '0'
  few : a.decimals.length ≤ 5
  last : ∀ c ∈ a.decimals.getLast?, c ≠ '0'

end Numeral

/-! ### Digits -/

/-- The digits of a number that is not zero do not start with a zero. -/
theorem exists_toDigits (n : ℕ) (some' : n ≠ 0) :
    ∃ c cs, Nat.toDigits 10 n = c :: cs ∧ c ≠ '0' := by
  induction n using Nat.strong_induction_on with
  | h n ih =>
    rw [Nat.toDigits_eq_if (by decide)]
    split
    · exact ⟨_, [], rfl, fun zero => some' (Nat.digitChar_eq_zero.1 zero)⟩
    · obtain ⟨c, cs, e, other⟩ := ih (n / 10) (by omega) (by omega)
      exact ⟨c, cs ++ [(n % 10).digitChar], by rw [e]; rfl, other⟩

/-- The digits after the point are digits. -/
theorem digits_fractionDigits (k n : ℕ) (h : n < 10 ^ k) :
    ∀ c ∈ fractionDigits k n, c.isDigit := by
  induction k generalizing n with
  | zero => exact nofun
  | succ k ih =>
    rw [fractionDigits]
    split
    · exact nofun
    · intro c hc
      rcases List.mem_cons.1 hc with rfl | hc
      · rw [Nat.isDigit_digitChar, decide_eq_true_eq]
        exact Nat.div_lt_of_lt_mul (by rwa [Nat.pow_succ] at h)
      · exact ih _ (Nat.mod_lt _ (Nat.pow_pos (by decide))) c hc

/-- There are at most as many digits after the point as there are places. -/
theorem length_fractionDigits_le (k n : ℕ) : (fractionDigits k n).length ≤ k := by
  induction k generalizing n with
  | zero => exact Nat.le_refl 0
  | succ k ih =>
    rw [fractionDigits]
    split
    · exact Nat.zero_le _
    · exact Nat.succ_le_succ (ih _)

/-- Decimals end in no zero. -/
theorem last_fractionDigits (k n : ℕ) : ∀ c ∈ (fractionDigits k n).getLast?, c ≠ '0' := by
  induction k generalizing n with
  | zero => exact nofun
  | succ k ih =>
    rw [fractionDigits]
    split
    · exact nofun
    · rename_i some'
      intro c hc zero
      by_cases rest : n % Nat.pow 10 k = 0
      · -- the first decimal is the last one that is not zero
        rw [rest, fractionDigits_zero] at hc
        cases hc
        have whole := Nat.div_add_mod n (Nat.pow 10 k)
        rw [Nat.digitChar_eq_zero.1 zero, rest] at whole
        exact some' (by omega)
      · have more : fractionDigits k (n % Nat.pow 10 k) ≠ [] := by
          cases k with
          | zero => exact absurd (Nat.mod_one n) rest
          | succ k => rw [fractionDigits, if_neg rest]; exact nofun
        rw [List.getLast?_cons_of_ne_nil more] at hc
        exact ih _ c hc zero

/-- The decimals of `n / 10 ^ k` after digits that stand for `a`. -/
theorem ofDigitChars_fractionDigits (k n a : ℕ) (h : n < 10 ^ k) :
    Nat.ofDigitChars 10 (fractionDigits k n) a * 10 ^ (k - (fractionDigits k n).length) =
      a * 10 ^ k + n := by
  induction k generalizing n a with
  | zero =>
    obtain rfl : n = 0 := by simpa using h
    simp [fractionDigits]
  | succ k ih =>
    rw [fractionDigits]
    split
    · rename_i zero
      rw [zero]
      simp
    · have digit : n / 10 ^ k < 10 := Nat.div_lt_of_lt_mul (by rwa [Nat.pow_succ] at h)
      have rest := ih (n % 10 ^ k) (10 * a + n / 10 ^ k) (Nat.mod_lt _ (Nat.pow_pos (by decide)))
      have whole := Nat.div_add_mod n (10 ^ k)
      show Nat.ofDigitChars 10 ((n / 10 ^ k).digitChar :: fractionDigits k (n % 10 ^ k)) a *
        10 ^ (k + 1 - ((fractionDigits k (n % 10 ^ k)).length + 1)) = _
      rw [Nat.ofDigitChars_cons_digitChar_of_lt_ten digit, Nat.add_sub_add_right, rest,
        Nat.pow_succ]
      calc (10 * a + n / 10 ^ k) * 10 ^ k + n % 10 ^ k
          = a * (10 ^ k * 10) + (10 ^ k * (n / 10 ^ k) + n % 10 ^ k) := by ring
        _ = a * (10 ^ k * 10) + n := by rw [whole]

/-! ### Numerals -/

/-- The numeral of a number of hundred-thousandths. -/
def Numeral.ofFraction (negative : Bool) (n : ℕ) : Numeral where
  negative
  whole := Nat.toDigits 10 (n / 10 ^ decimalPlaces)
  decimals := fractionDigits decimalPlaces (n % 10 ^ decimalPlaces)

namespace Numeral

variable (negative : Bool) (n : ℕ)

/-- A numeral made of a fraction is written as `positional` writes the fraction. -/
theorem chars_ofFraction :
    (ofFraction negative n).chars = signText negative ++ positional decimalPlaces n := by
  rw [chars, List.append_assoc]
  show _ ++ (Nat.toDigits 10 (n / 10 ^ decimalPlaces) ++ _) =
    _ ++ (Nat.toDigits 10 (n / 10 ^ decimalPlaces) ++ _)
  congr 2
  show (if fractionDigits decimalPlaces (n % 10 ^ decimalPlaces) = [] then _ else _) =
    if (fractionDigits decimalPlaces (n % 10 ^ decimalPlaces)).isEmpty then _ else _
  simp only [List.isEmpty_iff]
  rfl

/-- A numeral made of a fraction is canonical: it has no digit that could be left out. -/
theorem canonical_ofFraction : (ofFraction negative n).Canonical where
  digits c hc := by
    rcases List.mem_append.1 hc with hc | hc
    · exact Nat.isDigit_of_mem_toDigits (by decide) (by decide) hc
    · exact digits_fractionDigits _ _ (Nat.mod_lt _ (by decide)) c hc
  whole := by
    by_cases zero : n / 10 ^ decimalPlaces = 0
    · exact .inl (by rw [ofFraction, zero]; rfl)
    · exact .inr (exists_toDigits _ zero)
  few := length_fractionDigits_le _ _
  last := last_fractionDigits _ _

/-- A numeral made of a fraction has the fraction as its value. -/
theorem value_ofFraction :
    (ofFraction negative n).value = (if negative then -1 else 1) * ((n : ℚ) / 10 ^ 5) := by
  have less : n % 10 ^ 5 < 10 ^ 5 := Nat.mod_lt _ (by decide)
  have few := length_fractionDigits_le 5 (n % 10 ^ 5)
  have digits : Nat.ofDigitChars 10 (Nat.toDigits 10 (n / 10 ^ 5) ++
      fractionDigits 5 (n % 10 ^ 5)) 0 * 10 ^ (5 - (fractionDigits 5 (n % 10 ^ 5)).length) = n := by
    rw [Nat.ofDigitChars_append, Nat.ofDigitChars_ten_toDigits,
      ofDigitChars_fractionDigits _ _ _ less, Nat.mul_comm, Nat.div_add_mod]
  have size : (10 : ℚ) ^ (fractionDigits 5 (n % 10 ^ 5)).length *
      10 ^ (5 - (fractionDigits 5 (n % 10 ^ 5)).length) = 10 ^ 5 := by
    rw [← pow_add, Nat.add_sub_cancel' few]
  show _ * ((Nat.ofDigitChars 10 (Nat.toDigits 10 (n / 10 ^ 5) ++
    fractionDigits 5 (n % 10 ^ 5)) 0 : ℚ) / 10 ^ (fractionDigits 5 (n % 10 ^ 5)).length) = _
  congr 1
  rw [div_eq_div_iff (by positivity) (by positivity), ← size]
  rw [← mul_assoc, mul_right_comm]
  congr 1
  exact_mod_cast digits

end Numeral

namespace Numeric

open Binary64

/-- Whether a number is finite, and binary64 has a place for it. -/
def Finite : Numeric → Prop
  | .real x => x.value?.isSome
  | .int i => i.natAbs < beyond

/-- The number that is written for a number: the number itself, but an integer of 10¹⁶ or more
is brought to the nearest binary64 number. -/
def Written : Numeric → ℚ → Prop
  | .real x, v => x.value? = some v
  | .int i, v => if i.natAbs < 10 ^ 16 then v = i else ∃ x : Binary64, x.IsNearest i v

/-- A numeral of this text, with nothing in it that could be left out, that stands for the
multiple of 10⁻⁵ nearest to a number. -/
def Renders (text : String) (v : ℚ) : Prop :=
  ∃ a : Numeral, text = String.ofList a.chars ∧ a.Canonical ∧
    ∃ m : ℤ, a.value = m / 10 ^ 5 ∧ IsRounded (v * 10 ^ 5) m

/-- An integer is a whole number of the last decimal places. -/
theorem scaled_intCast (i : ℤ) : (i : ℚ) * 10 ^ 5 = (i * 10 ^ 5 : ℤ) := by
  push_cast
  rfl

/-- An integer is what its decimal places make up. -/
theorem intCast_scaled (i : ℤ) : ((i * 10 ^ 5 : ℤ) : ℚ) / 10 ^ 5 = i := by
  rw [← scaled_intCast]
  exact mul_div_cancel_right₀ _ (by norm_num)

/-- The digits of an integer render it. -/
theorem renders_integer (i : ℤ) : Renders (String.ofList (integerChars i)) i := by
  let a : Numeral := { negative := i < 0, whole := Nat.toDigits 10 i.natAbs, decimals := [] }
  have size : ((if i < 0 then -1 else 1) * (i.natAbs : ℚ)) = i := by
    rw [Nat.cast_natAbs, Int.cast_abs]
    split
    · rename_i negative
      rw [abs_of_neg (Int.cast_lt_zero.2 negative), neg_one_mul, neg_neg]
    · rename_i positive
      rw [abs_of_nonneg (Int.cast_nonneg (not_lt.1 positive)), one_mul]
  have value : a.value = i := by
    show (if decide (i < 0) = true then -1 else 1) *
      ((Nat.ofDigitChars 10 (Nat.toDigits 10 i.natAbs ++ []) 0 : ℚ) / 10 ^ 0) = i
    rw [List.append_nil, Nat.ofDigitChars_ten_toDigits, pow_zero, div_one]
    simpa using size
  refine ⟨a, ?_, ⟨fun c hc => ?_, ?_, Nat.zero_le 5, nofun⟩, i * 10 ^ 5, ?_, ?_⟩
  · rw [Numeral.chars, if_pos rfl, List.append_nil]
    rfl
  · rw [List.append_nil] at hc
    exact Nat.isDigit_of_mem_toDigits (by decide) (by decide) hc
  · by_cases zero : i.natAbs = 0
    · exact .inl (by show Nat.toDigits 10 i.natAbs = _; rw [zero]; rfl)
    · exact .inr (exists_toDigits _ zero)
  · rw [value, intCast_scaled]
  · rw [scaled_intCast]
    exact .intCast _

/-- The text of a finite number renders the number. -/
theorem renders_finite (s : Bool) (u : ℕ) (grid : OnGrid u) :
    Renders (Binary64.finite s u grid).text ((signedUnits s u : ℤ) / unitsPerOne) := by
  have one : 0 < unitsPerOne := Nat.cast_pos.1 unitsPerOne_pos
  rw [Binary64.text]
  split
  · rename_i zero
    subst zero
    have zero : ((signedUnits s 0 : ℤ) : ℚ) / unitsPerOne = (0 : ℤ) := by
      rw [signedUnits_zero, Int.cast_zero, zero_div]
    rw [zero]
    exact renders_integer 0
  · refine ⟨.ofFraction s (roundDiv (u * 10 ^ 5) unitsPerOne), ?_,
      Numeral.canonical_ofFraction _ _, (if s then -1 else 1) *
        (roundDiv (u * 10 ^ 5) unitsPerOne : ℤ), ?_, ?_⟩
    · rw [Numeral.chars_ofFraction]
      rfl
    · rw [Numeral.value_ofFraction, ← mul_div_assoc]
      push_cast
      rfl
    · have rounded := isRounded_roundDiv (u * 10 ^ 5) one
      have scaled : ((signedUnits s u : ℤ) : ℚ) / unitsPerOne * 10 ^ 5 =
          (if s then -1 else 1) * ((u * 10 ^ 5 : ℕ) / unitsPerOne : ℚ) := by
        rw [signedUnits_eq]
        push_cast
        ring
      rw [scaled]
      cases s with
      | false =>
        simp only [Bool.false_eq_true, if_false, one_mul]
        exact rounded
      | true =>
        simp only [if_true, neg_one_mul]
        exact rounded.neg

/-- Every finite number has a text, which renders it. -/
theorem exists_text {x : Numeric} (finite : x.Finite) :
    ∃ v text, x.Written v ∧ x.text = .ok text ∧ Renders text v := by
  cases x with
  | real x =>
    cases x with
    | nan | infinite => cases finite
    | finite s u grid => exact ⟨_, _, rfl, rfl, renders_finite s u grid⟩
  | int i =>
    rw [text]
    by_cases small : i.natAbs < 10 ^ 16
    · exact ⟨i, _, by rw [Written, if_pos small], if_pos small, renders_integer i⟩
    · obtain ⟨x, v, found, nearest⟩ := exists_nearest finite
      rw [if_neg (by exact small), found]
      refine ⟨v, x.text, by rw [Written, if_neg small]; exact ⟨x, nearest⟩, rfl, ?_⟩
      cases x with
      | nan | infinite => cases nearest.1
      | finite s u grid =>
        cases nearest.1
        exact renders_finite s u grid

end Numeric
end Number

open Number

/-- **The text of a finite number** is a numeral and the unit.  The numeral has at most five
decimals, no exponent and no zero that could be left out.  It stands for the number itself if
that is whole, and always for the multiple of 10⁻⁵ nearest to it, a tie going to the even one,
an integer of 10¹⁶ or more being taken as the binary64 number nearest to it. -/
theorem Value.css_number {x : Numeric} (finite : x.Finite) (unit : String) :
    ∃ (v : ℚ) (a : Numeral), x.Written v ∧
      (Value.number x unit).css = .ok (String.ofList a.chars ++ unit) ∧ a.Canonical ∧
      (∃ m : ℤ, a.value = m / 10 ^ 5 ∧ IsRounded (v * 10 ^ 5) m) ∧
      ∀ i : ℤ, v = i → a.value = i := by
  obtain ⟨v, text, written, e, a, rfl, canonical, m, value, rounded⟩ := Numeric.exists_text finite
  refine ⟨v, a, written, ?_, canonical, ⟨m, value, rounded⟩, ?_⟩
  · rw [css, render, e]
    rfl
  · rintro i rfl
    rw [Numeric.scaled_intCast] at rounded
    rw [value, rounded.eq_of_intCast, Numeric.intCast_scaled]

/-- An integer that is brought to the next multiple of 16, and a millionth below zero, of which
only the sign is left. -/
theorem Value.css_number_rounded :
    let x : Numeric := .int (10 ^ 17 + 9)
    let y : Numeric := .real (Binary64.ofDecimal 1 6).neg
    (x.Finite ∧ (Value.number x "px").css = .ok "100000000000000016px" ∧
      ∃ (v : ℚ) (a : Numeral), x.Written v ∧
        (Value.number x "px").css = .ok (String.ofList a.chars ++ "px") ∧ a.Canonical ∧
        (∃ m : ℤ, a.value = m / 10 ^ 5 ∧ IsRounded (v * 10 ^ 5) m) ∧
        ∀ i : ℤ, v = i → a.value = i) ∧
    (y.Finite ∧ (Value.number y "").css = .ok "-0" ∧
      ∃ (v : ℚ) (a : Numeral), y.Written v ∧
        (Value.number y "").css = .ok (String.ofList a.chars ++ "") ∧ a.Canonical ∧
        (∃ m : ℤ, a.value = m / 10 ^ 5 ∧ IsRounded (v * 10 ^ 5) m) ∧
        ∀ i : ℤ, v = i → a.value = i) := by
  intro x y
  have large : x.Finite := by
    show Int.natAbs (10 ^ 17 + 9) < Numeric.beyond
    decide +kernel
  have small : y.Finite := by
    show (Binary64.ofDecimal 1 6).neg.value?.isSome
    decide +kernel
  exact ⟨⟨large, by decide +kernel, css_number large "px"⟩, small, by decide +kernel,
    css_number small ""⟩

end Stylesheet

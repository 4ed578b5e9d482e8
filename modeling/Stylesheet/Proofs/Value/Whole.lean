/-
# Integers and binary64

A whole number is wanted where a loop has a bound.  A binary64 number is one or is not, and an
integer is one, but is looked at as binary64 first.  That has a place for it up to half way
between the largest finite number and 2¹⁰²⁴ (`Number.Numeric.exists_realOfInt_iff`): rounding
stays on the grid (`Number.onGrid_mul_iff`), and a tie at the end of the range goes to 2¹⁰²⁴, whose
significand is the even one.

A value is `Value.Ranged` if binary64 has a place for all of its integers.  Then it has a text
and, if it is a number, it is known which integer it is (`Value.Ranged.exists_css`,
`Number.Numeric.Ranged.asWhole_spec`).
-/

import Mathlib.Data.Nat.Log
import Mathlib.Algebra.Order.Ring.Nat
import Stylesheet.Value

namespace Stylesheet
namespace Number

/-! ### Rounding an integer to binary64 -/

/-- Rounding stays below an even number of steps `2 * h` up to half a step before it: the tie
goes to the even number. -/
theorem roundDiv_lt_iff {m n h : Nat} (hh : 0 < h) (even : m % 2 = 0) :
    roundDiv n (2 * h) < m ↔ n + h < m * (2 * h) := by
  have hn := Nat.div_add_mod n (2 * h)
  have hr := Nat.mod_lt n (show 0 < 2 * h by omega)
  rw [Nat.mul_comm] at hn
  -- a whole step for every number below `m`
  have less {q : Nat} (hq : q ≤ m) : q * (2 * h) ≤ m * (2 * h) := Nat.mul_le_mul_right _ hq
  have more {q : Nat} (hq : m ≤ q) : m * (2 * h) ≤ q * (2 * h) := Nat.mul_le_mul_right _ hq
  rcases roundDiv_cases n (2 * h) with ⟨e, near⟩ | ⟨e, near⟩ <;> rw [e] <;>
    generalize n / (2 * h) = q at hn near <;> generalize n % (2 * h) = r at hn hr near
  · constructor
    · intro below
      have step := less (q := q + 1) below
      rw [Nat.add_mul] at step
      rcases near with near | ⟨tie, parity⟩
      · omega
      · have step := less (q := q + 2) (by omega)
        rw [Nat.add_mul] at step
        omega
    · intro below
      by_contra above
      have := more (q := q) (by omega)
      omega
  · constructor
    · intro below
      have step := less (q := q + 2) (by omega)
      rw [Nat.add_mul] at step
      omega
    · intro below
      by_contra above
      have step := more (q := q + 1) (by omega)
      rw [Nat.add_mul] at step
      omega

/-- A multiple of the divisor that is not above a number is not above what it is rounded to. -/
theorem le_roundDiv {m n d : Nat} (hd : 0 < d) (h : m * d ≤ n) : m ≤ roundDiv n d := by
  have whole : m ≤ n / d := (Nat.le_div_iff_mul_le hd).2 h
  rcases roundDiv_cases n d with ⟨e, -⟩ | ⟨e, -⟩ <;> omega

/-- A number of at most 2⁵³ steps of a power of two is on the grid, unless it is too large. -/
theorem onGrid_mul_iff {q k : Nat} (hq : q ≤ 2 ^ 53) :
    OnGrid (q * 2 ^ k) ↔ q * 2 ^ k < Nat.pow 2 2098 := by
  refine and_iff_left (Nat.mod_eq_zero_of_dvd ?_)
  have le : q * 2 ^ k ≤ 2 ^ (53 + k) := by
    rw [Nat.pow_add]
    exact Nat.mul_le_mul_right _ hq
  show 2 ^ ((q * 2 ^ k).log2 - 52) ∣ q * 2 ^ k
  by_cases small : (q * 2 ^ k).log2 - 52 ≤ k
  · exact (Nat.pow_dvd_pow 2 small).trans (Nat.dvd_mul_left _ _)
  · -- only 2⁵³ steps have a logarithm that large
    have pos : q * 2 ^ k ≠ 0 := by
      intro zero
      rw [zero, Nat.log2_zero] at small
      omega
    have ge : 2 ^ (53 + k) ≤ q * 2 ^ k := (Nat.le_log2 pos).1 (by omega)
    have same : q * 2 ^ k = 2 ^ (53 + k) := Nat.le_antisymm le ge
    rw [same, Nat.log2_two_pow]
    exact Nat.pow_dvd_pow 2 (by omega)

/-- A magnitude is less than 2⁵³ of its steps. -/
theorem lt_steps (n : Nat) : n < 2 ^ 53 * 2 ^ (n.log2 - 52) := by
  rw [← Nat.pow_add]
  exact Nat.lt_of_lt_of_le Nat.lt_log2_self (Nat.pow_le_pow_right (by decide) (by omega))

/-- Rounded to steps of its own size, a number has at most so many steps. -/
theorem roundDiv_step_le (n : Nat) : roundDiv n (2 ^ (n.log2 - 52)) ≤ 2 ^ 53 := by
  have above := two_mul_roundDiv_le n (2 ^ (n.log2 - 52))
  have less := lt_steps n
  generalize (2 : Nat) ^ (n.log2 - 52) = s at above less ⊢
  by_contra more
  have step : s * (2 ^ 53 + 1) ≤ s * roundDiv n s := Nat.mul_le_mul_left s (by omega)
  rw [Nat.mul_add, Nat.mul_comm s] at step
  omega

section Binade

variable {n : Nat} (above : 52 < n.log2)
include above

/-- Above the least binades, a binade starts with 2⁵² of its steps. -/
theorem steps_eq_two_pow_log2 : 2 ^ 52 * 2 ^ (n.log2 - 52) = 2 ^ n.log2 := by
  rw [← Nat.pow_add, Nat.add_sub_cancel' (Nat.le_of_lt above)]

/-- The largest power of two in a number is not above it. -/
theorem two_pow_log2_le : 2 ^ n.log2 ≤ n :=
  Nat.log2_self_le (by rintro rfl; simp at above)

/-- Rounded to steps of its own size, a number has at least so many steps. -/
theorem le_roundDiv_step : 2 ^ 52 ≤ roundDiv n (2 ^ (n.log2 - 52)) :=
  le_roundDiv (Nat.two_pow_pos _) ((steps_eq_two_pow_log2 above).trans_le (two_pow_log2_le above))

end Binade

namespace Binary64

/-- Rounding to the grid is rounding to steps of the number's own size. -/
theorem roundToGrid_one (n : Nat) :
    roundToGrid n 1 = roundDiv n (2 ^ (n.log2 - 52)) * 2 ^ (n.log2 - 52) := by
  rw [roundToGrid, gridStep, Nat.div_one, Nat.one_mul]
  rfl

/-- **Where rounding leaves a range** of powers of two: half a step before its end. -/
theorem roundToGrid_lt_iff (n e : Nat) :
    roundToGrid n 1 < 2 ^ (e + 54) ↔ n + 2 ^ e < 2 ^ (e + 54) := by
  have few := roundDiv_step_le n
  rw [roundToGrid_one]
  have last : (2 : Nat) ^ (e + 54) = 2 ^ 53 * (2 * 2 ^ e) := by
    rw [Nat.pow_add]
    omega
  have pos : 0 < 2 ^ e := Nat.two_pow_pos _
  rcases Nat.lt_trichotomy (n.log2 - 52) (e + 1) with small | same | large
  · -- below the last binade neither side is near the end
    have le : 2 ^ 53 * 2 ^ (n.log2 - 52) ≤ 2 ^ 53 * 2 ^ e :=
      Nat.mul_le_mul_left _ (Nat.pow_le_pow_right (by decide) (by omega))
    have rounded := Nat.mul_le_mul_right (2 ^ (n.log2 - 52)) few
    have less := lt_steps n
    constructor <;> intro _ <;> omega
  · have step : (2 : Nat) ^ (n.log2 - 52) = 2 * 2 ^ e := by rw [same, Nat.pow_succ']
    rw [step, last, Nat.mul_lt_mul_right (by omega)]
    exact roundDiv_lt_iff pos (by decide)
  · -- beyond it everything is out of range
    have above : 52 < n.log2 := by omega
    have ge : 2 ^ (e + 54) ≤ 2 ^ n.log2 := Nat.pow_le_pow_right (by decide) (by omega)
    refine iff_of_false (Nat.not_lt.2 ?_) (Nat.not_lt.2 ?_)
    · exact (ge.trans_eq (steps_eq_two_pow_log2 above).symm).trans
        (Nat.mul_le_mul_right _ (le_roundDiv_step above))
    · exact (ge.trans (two_pow_log2_le above)).trans (Nat.le_add_right _ _)

end Binary64

namespace Numeric

/-- The least magnitude that binary64 has no place for: half way between its largest finite
number and 2¹⁰²⁴. -/
def beyond : Nat :=
  Nat.pow 2 1024 - Nat.pow 2 970

/-- A number is in range, or out of it by overflow. -/
theorem inRange_cases (x : Binary64) :
    (∃ y, inRange x = .ok y) ∨ inRange x = .error .overflow := by
  cases x with
  | infinite negative => exact .inr rfl
  | nan | finite => exact .inl ⟨_, rfl⟩

/-- What is in range is what is on the grid. -/
theorem exists_inRange_iff (negative : Bool) (units : Nat) :
    (∃ x, inRange (.ofUnits negative units) = .ok x) ↔ OnGrid units := by
  unfold Binary64.ofUnits
  split <;> simp [inRange, *]

/-- Units on both sides of a bound. -/
theorem units_lt_iff (m a c : Nat) :
    m * 2 ^ c + 2 ^ (a + c) < 2 ^ (a + c + 54) ↔ m < 2 ^ (a + 54) - 2 ^ a := by
  rw [Nat.add_right_comm, Nat.pow_add 2 a c, Nat.pow_add 2 (a + 54) c, ← Nat.add_mul,
    Nat.mul_lt_mul_right (Nat.two_pow_pos c)]
  exact Nat.lt_sub_iff_add_lt.symm

/-- **The integers that binary64 has a place for.** -/
theorem exists_realOfInt_iff (i : Int) : (∃ x, realOfInt i = .ok x) ↔ i.natAbs < beyond := by
  have last : 2 ^ (970 + 1074 + 54) = Nat.pow 2 2098 := by decide +kernel
  have unit : 2 ^ 1074 = unitsPerOne := by decide +kernel
  have bound : 2 ^ (970 + 54) - 2 ^ 970 = beyond := by decide +kernel
  rw [realOfInt, Binary64.ofInt, Binary64.ofQuotient, exists_inRange_iff, Binary64.roundToGrid_one,
    onGrid_mul_iff (roundDiv_step_le _), ← Binary64.roundToGrid_one, ← last,
    Binary64.roundToGrid_lt_iff, ← unit, ← bound]
  exact units_lt_iff i.natAbs 970 1074

/-- Whether binary64 has a place for a number. -/
def Ranged : Numeric → Prop
  | .real _ => True
  | .int i => i.natAbs < beyond

/-- A number in range has a text. -/
theorem Ranged.exists_text {x : Numeric} (h : x.Ranged) : ∃ s, x.text = .ok s := by
  cases x with
  | real x => exact ⟨_, rfl⟩
  | int i =>
    obtain ⟨y, e⟩ := (exists_realOfInt_iff i).2 h
    rw [text, e]
    split
    · exact ⟨_, rfl⟩
    · exact ⟨_, rfl⟩

/-- A magnitude with a sign is `a` units of a size if it is a multiple of them, with that sign. -/
theorem signedUnits_eq_mul_iff {negative : Bool} {units one : Nat} {a : Int} (pos : 0 < one) :
    Binary64.signedUnits negative units = a * one ↔
      units % one = 0 ∧ Binary64.signedUnits negative (units / one) = a := by
  have scale (q : Nat) : Binary64.signedUnits negative (q * one) =
      Binary64.signedUnits negative q * one := by
    cases negative
    · rfl
    · exact (Int.neg_mul q one).symm
  constructor
  · intro same
    have dvd : one ∣ units := by
      refine Int.natCast_dvd_natCast.1 ((Int.dvd_mul_left a one).trans ?_)
      rw [← same]
      cases negative <;> simp [Binary64.signedUnits]
    obtain ⟨q, rfl⟩ := exists_eq_mul_left_of_dvd dvd
    rw [scale] at same
    rw [Nat.mul_div_cancel q pos]
    exact ⟨Nat.mul_mod_left q one, Int.eq_of_mul_eq_mul_right (by omega) same⟩
  · rintro ⟨multiple, rfl⟩
    rw [← scale, Nat.div_mul_cancel (Nat.dvd_of_mod_eq_zero multiple)]

/-- **Which integer a number is**, by its place on the line. -/
theorem Ranged.asWhole_spec {x : Numeric} (h : x.Ranged) :
    ∃ o, x.asWhole = .ok o ∧
      ∀ a : Int, o = some a ↔ x.position = some (0, a * unitsPerOne) := by
  have pos : 0 < unitsPerOne := by decide +kernel
  cases x with
  | int i =>
    obtain ⟨y, e⟩ := (exists_realOfInt_iff i).2 h
    refine ⟨some i, by rw [asWhole, e]; rfl, fun a => ?_⟩
    have cancel : i * (unitsPerOne : Int) = a * unitsPerOne ↔ i = a :=
      Int.mul_eq_mul_right_iff (by omega)
    simp only [position, Option.some.injEq, Prod.mk.injEq, true_and, cancel]
  | real x =>
    refine ⟨x.toInt?, rfl, fun a => ?_⟩
    cases x with
    | nan => exact iff_of_false nofun nofun
    | infinite negative =>
      refine iff_of_false nofun fun same => ?_
      have first : (if negative then -1 else 1 : Int) = 0 :=
        congrArg Prod.fst (Option.some.inj same)
      revert first
      cases negative <;> decide
    | finite negative units onGrid =>
      simp only [Binary64.toInt?, position, Option.ite_none_right_eq_some, Option.some.injEq,
        Prod.mk.injEq, true_and, signedUnits_eq_mul_iff pos]

/-- A number out of range is refused as a whole one. -/
theorem asWhole_of_not_ranged {x : Numeric} (h : ¬x.Ranged) : x.asWhole = .error .overflow := by
  cases x with
  | real x => exact absurd trivial h
  | int i =>
    rcases inRange_cases (.ofInt i) with found | refused
    · exact absurd ((exists_realOfInt_iff i).1 found) h
    · rw [asWhole, realOfInt, refused]
      rfl

end Numeric
end Number

namespace Value

/-- The value is an integer with a unit, in one of the two kinds of numbers. -/
def IsWhole (v : Value) (a : Int) (unit : String) : Prop :=
  ∃ x, v = .number x unit ∧ x.position = some (0, a * Number.unitsPerOne)

/-- Binary64 has a place for all numbers in a value. -/
inductive Ranged : Value → Prop
  | null : Ranged .null
  | bool (b : Bool) : Ranged (.bool b)
  | number {x : Number.Numeric} (h : x.Ranged) (unit : String) : Ranged (.number x unit)
  | string (text : String) (quoted : Bool) : Ranged (.string text quoted)
  | list {vs : List Value} (h : ∀ v ∈ vs, Ranged v) (s : Separator) : Ranged (.list vs s)

/-- Values with texts have texts one after the other. -/
theorem exists_renderItems {quotes : Bool} {vs : List Value}
    (h : ∀ v ∈ vs, ∃ text, v.render quotes = .ok text) :
    ∃ texts, renderItems quotes vs = .ok texts := by
  induction vs with
  | nil => exact ⟨[], rfl⟩
  | cons v vs ih =>
    obtain ⟨text, e⟩ := h v List.mem_cons_self
    obtain ⟨texts, e'⟩ := ih fun u hu => h u (List.mem_cons_of_mem v hu)
    cases v with
    | null => exact ⟨texts, e'⟩
    | _ => exact ⟨text :: texts, by rw [renderItems, e, e'] <;> first | rfl | nofun⟩

/-- A value in range has a CSS text. -/
theorem Ranged.exists_css {v : Value} (h : v.Ranged) : ∃ text, v.css = .ok text := by
  show ∃ text, v.render true = .ok text
  induction h with
  | null | bool | string => exact ⟨_, rfl⟩
  | number h unit =>
    obtain ⟨digits, e⟩ := h.exists_text
    exact ⟨digits ++ unit, by rw [render, e]; rfl⟩
  | list _ s ih =>
    obtain ⟨texts, e⟩ := exists_renderItems ih
    exact ⟨s.text.intercalate texts, by rw [render, e]; rfl⟩

end Value
end Stylesheet

/-
# The nearest number

What a quotient is rounded to is the nearest whole number (`Number.IsRounded`), a tie going to
the even one (`Number.isRounded_roundDiv`).

The exact value of a binary64 number is a fraction (`Number.Binary64.value?`).  An integer that
binary64 has a place for is brought to the number nearest to it, a tie going to the one whose
last bit is clear (`Number.Numeric.exists_nearest`): a number on the grid that is no multiple of
the step at the integer is in a lower binade, and the start of the integer's own binade is nearer
(`Number.Binary64.nearest_roundToGrid`).
-/

import Mathlib.Data.Rat.Cast.Order
import Mathlib.Algebra.Order.Floor.Ring
import Mathlib.Tactic.FieldSimp
import Mathlib.Tactic.Linarith
import Mathlib.Tactic.Ring
import Stylesheet.Proofs.Value.Whole

namespace Stylesheet
namespace Number

/-! ### The nearest whole number -/

/-- A whole number is nearest to a fraction, and even if another one is as near. -/
def IsRounded (t : ℚ) (m : ℤ) : Prop :=
  ∀ k : ℤ, k ≠ m → |t - m| ≤ |t - k| ∧ (|t - m| = |t - k| → Even m)

namespace IsRounded

variable {t : ℚ} {m : ℤ}

/-- A whole number at most one half away. -/
theorem of_half (near : |t - m| ≤ 1 / 2) (tie : |t - m| = 1 / 2 → Even m) : IsRounded t m := by
  intro k other
  have apart : (1 : ℚ) ≤ |(m : ℚ) - k| := by
    have whole := Int.one_le_abs (sub_ne_zero.2 other.symm)
    exact_mod_cast whole
  have through := abs_sub_le (m : ℚ) t k
  rw [abs_sub_comm (m : ℚ) t] at through
  refine ⟨by linarith, fun same => tie ?_⟩
  linarith

/-- The other way round from zero, what is nearest is the other way round too. -/
theorem neg (h : IsRounded t m) : IsRounded (-t) (-m) := by
  intro k other
  have turned (j : ℤ) : |(-t : ℚ) - j| = |t - (-j : ℤ)| := by
    rw [← abs_neg]
    congr 1
    push_cast
    ring
  obtain ⟨near, tie⟩ := h (-k) fun same => other (by omega)
  rw [turned (-m), turned k, neg_neg]
  exact ⟨near, fun same => (tie same).neg⟩

/-- A whole number is rounded to itself, and to nothing else. -/
theorem intCast (m : ℤ) : IsRounded m m :=
  .of_half (by norm_num) (by norm_num)

/-- An integer is nearest to itself only. -/
theorem eq_of_intCast {i : ℤ} (h : IsRounded i m) : m = i := by
  by_contra other
  have none := (h i (Ne.symm other)).1
  rw [sub_self, abs_zero] at none
  have same := sub_eq_zero.1 (abs_nonpos_iff.1 none)
  exact other (Int.cast_injective same).symm

end IsRounded

/-- Only a quotient that is half way between two whole numbers is rounded to one at that
distance. -/
theorem two_mul_mod_of_tie {n d : ℕ} (hd : 0 < d)
    (tie : |(n : ℤ) - d * roundDiv n d| * 2 = d) : 2 * (n % d) = d := by
  have less := Nat.mod_lt n hd
  have parts : (n : ℤ) = d * (n / d : ℕ) + (n % d : ℕ) := by
    exact_mod_cast (Nat.div_add_mod n d).symm
  rcases roundDiv_cases n d with ⟨e, -⟩ | ⟨e, -⟩ <;> rw [e] at tie
  · have rest : (n : ℤ) - d * (n / d : ℕ) = (n % d : ℕ) := by linarith
    rw [rest, abs_of_nonneg (by omega)] at tie
    omega
  · have rest : (n : ℤ) - d * (n / d + 1 : ℕ) = (n % d : ℕ) - d := by
      rw [Nat.cast_succ, mul_add, mul_one]
      linarith
    rw [rest, abs_of_nonpos (by omega)] at tie
    omega

/-- **A quotient is rounded to the nearest whole number**, a tie to the even one. -/
theorem isRounded_roundDiv (n : ℕ) {d : ℕ} (hd : 0 < d) :
    IsRounded ((n : ℚ) / d) (roundDiv n d : ℤ) := by
  have pos : (0 : ℚ) < d := Nat.cast_pos.2 hd
  have above : 2 * ((d : ℚ) * roundDiv n d) ≤ 2 * n + d := by
    exact_mod_cast two_mul_roundDiv_le n d
  have below : 2 * (n : ℚ) ≤ 2 * (d * roundDiv n d) + d := by
    exact_mod_cast le_two_mul_roundDiv n hd
  have size : |(n : ℚ) / d - (roundDiv n d : ℤ)| = |(n : ℚ) - d * roundDiv n d| / d := by
    rw [← abs_of_pos pos, ← abs_div, abs_of_pos pos, Int.cast_natCast]
    congr 1
    field_simp
  refine .of_half ?_ fun tie => ?_
  · rw [size, div_le_div_iff₀ pos two_pos, one_mul]
    have : |(n : ℚ) - d * roundDiv n d| ≤ d / 2 := abs_le.2 ⟨by linarith, by linarith⟩
    linarith
  · rw [size, div_eq_div_iff pos.ne' two_ne_zero, one_mul] at tie
    have half : 2 * (n % d) = d := two_mul_mod_of_tie hd (by exact_mod_cast tie)
    exact (Int.even_coe_nat _).2 (Nat.even_iff.2 (even_roundDiv_of_tie half))

/-! ### The nearest binary64 number -/

namespace Binary64

/-- The exact value of a finite number. -/
def value? : Binary64 → Option ℚ
  | .finite s u _ => some (signedUnits s u / unitsPerOne)
  | _ => none

/-- Whether the last bit that the grid has at the magnitude of a number is clear. -/
def lastClear : Binary64 → Bool
  | .finite _ u _ => u % (2 * gridStep u) = 0
  | _ => false

/-- A finite number with the exact value `v` is nearest to a fraction, and its last bit is
clear if a number with another value is as near. -/
def IsNearest (t : ℚ) (x : Binary64) (v : ℚ) : Prop :=
  x.value? = some v ∧ ∀ (y : Binary64) (w : ℚ), y.value? = some w → w ≠ v →
    |t - v| ≤ |t - w| ∧ (|t - v| = |t - w| → x.lastClear)

/-- There are units in one. -/
theorem unitsPerOne_pos : (0 : ℚ) < unitsPerOne := by
  have pos : 0 < unitsPerOne := by decide +kernel
  exact Nat.cast_pos.2 pos

/-- An even number of steps, at most 2⁵³ and at least half of that, has a clear last bit. -/
theorem lastClear_steps {r k : ℕ} (even : r % 2 = 0) (least : 2 ^ 52 ≤ r) (most : r ≤ 2 ^ 53) :
    r * 2 ^ k % (2 * gridStep (r * 2 ^ k)) = 0 := by
  refine Nat.mod_eq_zero_of_dvd ?_
  show 2 * 2 ^ ((r * 2 ^ k).log2 - 52) ∣ r * 2 ^ k
  have pos : r * 2 ^ k ≠ 0 := by positivity
  obtain ⟨j, rfl⟩ := Nat.dvd_of_mod_eq_zero even
  rcases Nat.lt_or_eq_of_le most with less | full
  · have log : (2 * j * 2 ^ k).log2 = 52 + k := by
      rw [Nat.log2_eq_iff pos, Nat.pow_add, Nat.add_right_comm, Nat.pow_add]
      exact ⟨Nat.mul_le_mul_right _ least, Nat.mul_lt_mul_of_pos_right less (Nat.two_pow_pos k)⟩
    rw [log, Nat.add_sub_cancel_left, Nat.mul_assoc, Nat.mul_comm j, ← Nat.mul_assoc]
    exact Nat.dvd_mul_right _ _
  · rw [full, ← Nat.pow_add, Nat.log2_two_pow, ← Nat.pow_succ']
    exact Nat.pow_dvd_pow 2 (by omega)

/-- No multiple of a size is nearer to `n` than the one that the quotient is rounded to. -/
theorem nearest_multiple (n : ℕ) {d : ℕ} (hd : 0 < d) {q : ℕ} (other : q ≠ roundDiv n d) :
    |(n : ℤ) - (roundDiv n d * d : ℕ)| ≤ |(n : ℤ) - (q * d : ℕ)| ∧
      (|(n : ℤ) - (roundDiv n d * d : ℕ)| = |(n : ℤ) - (q * d : ℕ)| → roundDiv n d % 2 = 0) := by
  have pos : (0 : ℚ) < d := Nat.cast_pos.2 hd
  -- a multiple is as many times the size away as the quotients say
  have scaled (q : ℕ) :
      |(n : ℚ) / d - (q : ℤ)| = (|(n : ℤ) - (q * d : ℕ)| : ℤ) / (d : ℚ) := by
    rw [Int.cast_abs, ← abs_of_pos pos, ← abs_div, abs_of_pos pos]
    congr 1
    push_cast
    field_simp
  obtain ⟨near, tie⟩ := isRounded_roundDiv n hd q (by exact_mod_cast other)
  rw [scaled, scaled] at near tie
  rw [div_le_div_iff_of_pos_right pos] at near
  rw [div_left_inj' pos.ne'] at tie
  refine ⟨by exact_mod_cast near, fun same => ?_⟩
  exact Nat.even_iff.1 ((Int.even_coe_nat _).1 (tie (congrArg _ same)))

/-- The multiple of its step that a magnitude is brought to has a clear last bit if another
multiple is as near. -/
theorem lastClear_of_tie {n q : ℕ} (other : q ≠ roundDiv n (2 ^ (n.log2 - 52)))
    (tie : |(n : ℤ) - roundToGrid n 1| = |(n : ℤ) - (q * 2 ^ (n.log2 - 52) : ℕ)|) :
    roundToGrid n 1 % (2 * gridStep (roundToGrid n 1)) = 0 := by
  rw [roundToGrid_one] at tie ⊢
  by_cases above : 52 < n.log2
  · have even := (nearest_multiple n (Nat.two_pow_pos _) other).2 tie
    exact lastClear_steps even (le_roundDiv_step above) (roundDiv_step_le n)
  · -- every number of units is on the grid here, so nothing else is as near
    exfalso
    rw [Nat.sub_eq_zero_of_le (not_lt.1 above), Nat.pow_zero] at tie other
    have self : roundDiv n 1 = n := by simpa using roundDiv_mul n Nat.one_pos
    rw [self, Nat.mul_one, Nat.mul_one, sub_self, abs_zero] at tie
    rw [self] at other
    have := abs_eq_zero.1 tie.symm
    omega

/-- What a magnitude is brought to is nearer than the numbers on the grid that are no multiple
of its step. -/
theorem nearer_than_lower {n w : ℕ} (grid : OnGrid w) (between : ¬2 ^ (n.log2 - 52) ∣ w) :
    |(n : ℤ) - roundToGrid n 1| < |(n : ℤ) - w| := by
  have lower : w.log2 - 52 < n.log2 - 52 := by
    by_contra higher
    have step : 2 ^ (w.log2 - 52) ∣ w := Nat.dvd_of_mod_eq_zero grid.2
    exact between ((Nat.pow_dvd_pow 2 (by omega)).trans step)
  have above : 52 < n.log2 := by omega
  calc |(n : ℤ) - roundToGrid n 1|
      ≤ |(n : ℤ) - (2 ^ 52 * 2 ^ (n.log2 - 52) : ℕ)| := by
        rw [roundToGrid_one]
        by_cases start : 2 ^ 52 = roundDiv n (2 ^ (n.log2 - 52))
        · rw [← start]
        · exact (nearest_multiple n (Nat.two_pow_pos _) start).1
    _ < |(n : ℤ) - w| := by
        have below : w < 2 ^ n.log2 :=
          Nat.lt_of_lt_of_le Nat.lt_log2_self (Nat.pow_le_pow_right (by decide) (by omega))
        have self := two_pow_log2_le above
        rw [steps_eq_two_pow_log2 above, abs_of_nonneg (by omega), abs_of_nonneg (by omega)]
        omega

/-- **No number on the grid is nearer** to a number of units than the one that it is rounded
to. -/
theorem nearest_roundToGrid (n : ℕ) {w : ℕ} (grid : OnGrid w) :
    |(n : ℤ) - roundToGrid n 1| ≤ |(n : ℤ) - w| ∧
      (|(n : ℤ) - roundToGrid n 1| = |(n : ℤ) - w| → w ≠ roundToGrid n 1 →
        roundToGrid n 1 % (2 * gridStep (roundToGrid n 1)) = 0) := by
  by_cases multiple : 2 ^ (n.log2 - 52) ∣ w
  · obtain ⟨q, rfl⟩ := exists_eq_mul_left_of_dvd multiple
    by_cases same : q = roundDiv n (2 ^ (n.log2 - 52))
    · rw [same, ← roundToGrid_one]
      exact ⟨le_rfl, fun _ other => absurd rfl other⟩
    · refine ⟨?_, fun tie _ => lastClear_of_tie same tie⟩
      rw [roundToGrid_one]
      exact (nearest_multiple n (Nat.two_pow_pos _) same).1
  · have nearer := nearer_than_lower grid multiple
    exact ⟨nearer.le, fun tie => absurd tie nearer.ne⟩

/-- No units are zero, whatever the sign. -/
theorem signedUnits_zero (s : Bool) : signedUnits s 0 = 0 := by
  cases s <;> rfl

/-- Signed units are the units with the sign as a factor. -/
theorem signedUnits_eq (s : Bool) (u : ℕ) : signedUnits s u = (if s then -1 else 1) * (u : ℤ) := by
  cases s <;> simp [signedUnits]

/-- A number of units with a sign lies as far from any other with that sign as without it, and
not nearer to those with the other sign. -/
theorem abs_sub_signedUnits (s t : Bool) (n w : ℕ) :
    |signedUnits s n - signedUnits s w| = |(n : ℤ) - w| ∧
      (s ≠ t → |signedUnits s n - signedUnits t w| = n + w) := by
  refine ⟨?_, fun other => ?_⟩
  · rw [signedUnits_eq, signedUnits_eq, ← mul_sub, abs_mul]
    cases s <;> simp
  · have apart : signedUnits s n - signedUnits t w = (if s then -1 else 1) * ((n : ℤ) + w) := by
      cases s <;> cases t <;> simp [signedUnits] at other ⊢
      ring
    rw [apart, abs_mul, abs_of_nonneg (a := (n : ℤ) + w) (by omega)]
    cases s <;> simp

/-- The units of an integer, with its sign, are so many units of one. -/
theorem signedUnits_intCast (i : ℤ) :
    signedUnits (i < 0) (i.natAbs * unitsPerOne) = i * unitsPerOne := by
  rw [signedUnits_eq]
  push_cast
  by_cases negative : i < 0
  · simp only [negative, decide_true, if_true, abs_of_neg negative]
    ring
  · simp only [negative, decide_false, Bool.false_eq_true, if_false,
      abs_of_nonneg (not_lt.1 negative), one_mul]

/-- How far an integer is from a number, in units. -/
theorem abs_intCast_sub (i : ℤ) (s : Bool) (u : ℕ) :
    |(i : ℚ) - (signedUnits s u : ℤ) / unitsPerOne| =
      (|signedUnits (i < 0) (i.natAbs * unitsPerOne) - signedUnits s u| : ℤ) /
        (unitsPerOne : ℚ) := by
  have pos := unitsPerOne_pos
  have self : (i : ℚ) = (i * unitsPerOne : ℤ) / (unitsPerOne : ℚ) := by
    push_cast
    field_simp
  rw [signedUnits_intCast, Int.cast_abs, Int.cast_sub]
  conv_lhs => rw [self]
  rw [← sub_div, abs_div, abs_of_pos pos]

end Binary64

namespace Numeric

open Binary64

/-- **An integer is brought to the nearest number** if binary64 has a place for it. -/
theorem exists_nearest {i : ℤ} (range : i.natAbs < beyond) :
    ∃ x v, realOfInt i = .ok x ∧ x.IsNearest i v := by
  obtain ⟨x, found⟩ := (exists_realOfInt_iff i).2 range
  have grid : OnGrid (roundToGrid (i.natAbs * unitsPerOne) 1) :=
    (exists_inRange_iff (i < 0) _).1 ⟨x, found⟩
  have made : x = .finite (i < 0) _ grid := by
    rw [realOfInt, ofInt, ofQuotient, ofUnits, dif_pos grid] at found
    cases found
    rfl
  subst made
  refine ⟨_, _, found, rfl, ?_⟩
  rintro (_ | _ | ⟨t, w, onGrid⟩) value e other
  case nan | infinite => cases e
  cases e
  have pos := unitsPerOne_pos
  rw [abs_intCast_sub, abs_intCast_sub, div_le_div_iff_of_pos_right pos,
    div_left_inj' pos.ne', Int.cast_le, Int.cast_inj]
  obtain ⟨same, opposite⟩ := abs_sub_signedUnits (i < 0) t (i.natAbs * unitsPerOne) w
  obtain ⟨rounded, -⟩ := abs_sub_signedUnits (i < 0) t (i.natAbs * unitsPerOne)
    (roundToGrid (i.natAbs * unitsPerOne) 1)
  rw [rounded]
  by_cases sign : decide (i < 0) = t
  · subst sign
    obtain ⟨near, tie⟩ := nearest_roundToGrid (i.natAbs * unitsPerOne) onGrid
    rw [same]
    refine ⟨near, fun even => decide_eq_true (tie even fun there => other ?_)⟩
    rw [there]
  · -- a number of the other sign is no nearer than zero
    obtain ⟨near, tie⟩ := nearest_roundToGrid (i.natAbs * unitsPerOne) onGrid_zero
    rw [opposite sign]
    rw [Nat.cast_zero, sub_zero, abs_of_nonneg (Int.natCast_nonneg _)] at near tie
    refine ⟨near.trans (by omega), fun even => ?_⟩
    obtain rfl : w = 0 := by omega
    refine decide_eq_true (tie (by omega) fun there => other ?_)
    rw [← there, signedUnits_zero, signedUnits_zero]

end Numeric
end Number
end Stylesheet

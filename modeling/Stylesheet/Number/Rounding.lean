/-
# Rounding a quotient to the nearest integer

`roundDiv n d` is the integer nearest to `n / d`; a quotient half way between
two integers goes to the even one.  Binary64 arithmetic, the text of a number
and the `round` function of the style language are all rounded by it.

`two_mul_roundDiv_le` and `le_two_mul_roundDiv` bound the result within half a
unit on either side, and `even_roundDiv_of_tie` says where a tie goes.
-/

namespace Stylesheet
namespace Number

/-- The integer nearest to `n / d`, ties to the even neighbour. -/
def roundDiv (n d : Nat) : Nat :=
  let q := n / d
  let r := n % d
  if 2 * r < d then q
  else if d < 2 * r then q + 1
  else if q % 2 = 0 then q else q + 1

/-- The nearest integer is the quotient or the one above it, whichever the remainder tells. -/
theorem roundDiv_cases (n d : Nat) :
    (roundDiv n d = n / d ∧ (2 * (n % d) < d ∨ 2 * (n % d) = d ∧ n / d % 2 = 0)) ∨
      (roundDiv n d = n / d + 1 ∧ (d < 2 * (n % d) ∨ 2 * (n % d) = d ∧ n / d % 2 = 1)) := by
  simp only [roundDiv]
  split
  · exact Or.inl ⟨rfl, Or.inl ‹_›⟩
  · split
    · exact Or.inr ⟨rfl, Or.inl ‹_›⟩
    · split
      · exact Or.inl ⟨rfl, Or.inr ⟨by omega, ‹_›⟩⟩
      · exact Or.inr ⟨rfl, Or.inr ⟨by omega, by omega⟩⟩

/-- **At most half a unit above the quotient.** -/
theorem two_mul_roundDiv_le (n d : Nat) : 2 * (d * roundDiv n d) ≤ 2 * n + d := by
  have hn := Nat.div_add_mod n d
  rcases roundDiv_cases n d with ⟨h, _⟩ | ⟨h, hr⟩ <;> rw [h]
  · omega
  · rw [Nat.mul_add, Nat.mul_one]
    omega

/-- **At most half a unit below the quotient.** -/
theorem le_two_mul_roundDiv (n : Nat) {d : Nat} (hd : 0 < d) :
    2 * n ≤ 2 * (d * roundDiv n d) + d := by
  have hn := Nat.div_add_mod n d
  have := Nat.mod_lt n hd
  rcases roundDiv_cases n d with ⟨h, hr⟩ | ⟨h, hr⟩ <;> rw [h]
  · omega
  · rw [Nat.mul_add, Nat.mul_one]
    omega

/-- **A tie goes to the even neighbour.** -/
theorem even_roundDiv_of_tie {n d : Nat} (h : 2 * (n % d) = d) : roundDiv n d % 2 = 0 := by
  rcases roundDiv_cases n d with ⟨e, hr⟩ | ⟨e, hr⟩ <;> rw [e] <;> omega

/-- A quotient without remainder is itself. -/
theorem roundDiv_mul (q : Nat) {d : Nat} (hd : 0 < d) : roundDiv (q * d) d = q := by
  have h1 : q * d % d = 0 := Nat.mul_mod_left q d
  have h2 : q * d / d = q := Nat.mul_div_cancel q hd
  simp only [roundDiv, h1, h2]
  rw [if_pos (by omega)]

end Number
end Stylesheet

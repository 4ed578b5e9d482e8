/-
# Equality of values

Equality looks at less than a value holds: not at quotes, nor at separators, nor at how a
number is represented.  `Value.essence?` is what it looks at; a value with a nan in it has
none.  Two values are equal just if they have the same essence (`Value.eq_iff_essence`), so equality
is an equivalence, but that a nan equals nothing (`Value.eq_equivalence`).
-/

import Stylesheet.Value.Operation

namespace Stylesheet

open Number

/-- Whether a number is not a nan. -/
def Number.Numeric.nanFree : Numeric → Bool
  | real .nan => false
  | _ => true

/-- Every number but nan has a position among the numbers. -/
theorem Number.Numeric.isSome_position (x : Numeric) : x.position.isSome = x.nanFree := by
  match x with
  | .real .nan | .real (.infinite _) | .real (.finite ..) | .int _ => rfl

/-- Two numbers are equal just if they have a place on the line, the same one. -/
theorem Number.Numeric.equal_iff (x y : Numeric) :
    x.equal y = true ↔ ∃ p, x.position = some p ∧ y.position = some p := by
  rw [equal, Bool.and_eq_true, beq_iff_eq, Option.isSome_iff_exists]
  constructor
  · rintro ⟨⟨p, hp⟩, same⟩
    exact ⟨p, hp, same ▸ hp⟩
  · rintro ⟨p, hx, hy⟩
    exact ⟨⟨p, hx⟩, hx.trans hy.symm⟩

namespace Value

/-- What equality looks at in a value. -/
inductive Essence where
  | null
  | bool (b : Bool)
  /-- The exact value of a number, and its unit. -/
  | number (position : Int × Int) (unit : String)
  /-- The text of a string, whatever its quotes. -/
  | string (text : String)
  /-- The items of a list, whatever its separator. -/
  | list (items : List Essence)

mutual

/-- What equality looks at in a value, if no number in it is a nan. -/
def essence? : Value → Option Essence
  | .null => some .null
  | .bool b => some (.bool b)
  | .number x unit => x.position.map (.number · unit)
  | .string text _ => some (.string text)
  | .list vs _ => (essences? vs).map .list

/-- What equality looks at in each of some values. -/
def essences? : List Value → Option (List Essence)
  | [] => some []
  | v :: vs => v.essence?.bind fun k => (essences? vs).map (k :: ·)

end

mutual

/-- Whether no number in a value is a nan. -/
def nanFree : Value → Bool
  | .number x _ => x.nanFree
  | .list vs _ => nanFreeAll vs
  | _ => true

/-- Whether no number in some values is a nan. -/
def nanFreeAll : List Value → Bool
  | [] => true
  | v :: vs => v.nanFree && nanFreeAll vs

end

mutual

/-- **Equal is what has the same essence.** -/
theorem eq_iff_essence (a b : Value) :
    a.eq b = true ↔ ∃ k, a.essence? = some k ∧ b.essence? = some k := by
  match a with
  | .null => cases b <;> simp [eq, essence?]
  | .bool x =>
    cases b with
    | bool y => simp [eq, essence?, @eq_comm _ x]
    | _ => simp [eq, essence?]
  | .string s q =>
    cases b with
    | string t r => simp [eq, essence?, @eq_comm _ s]
    | _ => simp [eq, essence?]
  | .number x u =>
    cases b with
    | number y v =>
      simp only [eq, Bool.and_eq_true, x.equal_iff, beq_iff_eq, essence?, Option.map_eq_some_iff]
      constructor
      · rintro ⟨⟨p, hx, hy⟩, rfl⟩
        exact ⟨_, ⟨p, hx, rfl⟩, p, hy, rfl⟩
      · rintro ⟨_, ⟨p, hx, rfl⟩, p', hy, e⟩
        cases e
        exact ⟨⟨p, hx, hy⟩, rfl⟩
    | _ => cases e : x.position <;> simp [eq, essence?, e]
  | .list xs s =>
    cases b with
    | list ys t =>
      simp only [eq, eqItems_iff_essences xs ys, essence?, Option.map_eq_some_iff]
      constructor
      · rintro ⟨ks, hx, hy⟩
        exact ⟨_, ⟨ks, hx, rfl⟩, ks, hy, rfl⟩
      · rintro ⟨_, ⟨ks, hx, rfl⟩, ks', hy, e⟩
        cases e
        exact ⟨ks, hx, hy⟩
    | _ => cases e : essences? xs <;> simp [eq, essence?, e]

/-- Equal lists are those whose items have the same essence, one by one. -/
theorem eqItems_iff_essences (xs ys : List Value) :
    eqItems xs ys = true ↔ ∃ ks, essences? xs = some ks ∧ essences? ys = some ks := by
  match xs, ys with
  | [], [] => simp [eqItems, essences?]
  | [], y :: ys => simp [eqItems, essences?, Option.bind_eq_some_iff]
  | x :: xs, [] => simp [eqItems, essences?, Option.bind_eq_some_iff]
  | x :: xs, y :: ys =>
    simp only [eqItems, Bool.and_eq_true, eq_iff_essence x y, eqItems_iff_essences xs ys, essences?,
      Option.bind_eq_some_iff, Option.map_eq_some_iff]
    constructor
    · rintro ⟨⟨k, hx, hy⟩, ks, hxs, hys⟩
      exact ⟨_, ⟨k, hx, ks, hxs, rfl⟩, k, hy, ks, hys, rfl⟩
    · rintro ⟨_, ⟨k, hx, ks, hxs, rfl⟩, k', hy, ks', hys, e⟩
      cases e
      exact ⟨⟨k, hx, hy⟩, ks, hxs, hys⟩

end

mutual

/-- A value without nan in it has an essence. -/
theorem isSome_essence? (v : Value) : v.essence?.isSome = v.nanFree := by
  match v with
  | .null | .bool _ | .string .. => rfl
  | .number x u => rw [essence?, nanFree, Option.isSome_map, x.isSome_position]
  | .list vs s => rw [essence?, nanFree, Option.isSome_map, isSome_essences? vs]

/-- Values without nan in them have essences. -/
theorem isSome_essences? (vs : List Value) : (essences? vs).isSome = nanFreeAll vs := by
  match vs with
  | [] => rfl
  | v :: vs =>
    rw [essences?, nanFreeAll, ← isSome_essence? v, ← isSome_essences? vs]
    cases v.essence? with
    | none => rfl
    | some k => exact Option.isSome_map

end

/-- Equality of values is symmetric, also where nan comes up. -/
theorem equal_symm (a b : Value) : a.eq b = b.eq a := by
  rw [Bool.eq_iff_iff, eq_iff_essence, eq_iff_essence]
  exact exists_congr fun k => and_comm

/-- Equality of values is transitive, over numbers of both kinds. -/
theorem equal_trans {a b c : Value} (h : a.eq b = true) (h' : b.eq c = true) : a.eq c = true := by
  obtain ⟨k, ha, hb⟩ := (eq_iff_essence a b).1 h
  obtain ⟨l, hb', hc⟩ := (eq_iff_essence b c).1 h'
  obtain rfl : k = l := Option.some.inj (hb.symm.trans hb')
  exact (eq_iff_essence a c).2 ⟨k, ha, hc⟩

/-- A value equals itself just if there is no nan in it. -/
theorem equal_self (a : Value) : a.eq a = a.nanFree := by
  rw [Bool.eq_iff_iff, eq_iff_essence, ← isSome_essence?, Option.isSome_iff_exists]
  exact exists_congr fun k => and_self_iff

/-- **Equality of values is an equivalence**, but that a value with a nan in it equals nothing,
not even itself; and `!=` is the negation of `==`. -/
theorem eq_equivalence :
    (∀ a b : Value, a.eq b = b.eq a) ∧
      (∀ a b c : Value, a.eq b = true → b.eq c = true → a.eq c = true) ∧
      (∀ a : Value, a.eq a = a.nanFree) ∧
      ∀ a b : Value, operate .eq a b = .ok (.bool (a.eq b)) ∧
        operate .ne a b = .ok (.bool (!a.eq b)) :=
  ⟨equal_symm, fun _ _ _ => equal_trans, equal_self, fun _ _ => ⟨rfl, rfl⟩⟩

/-- A nested list that is written in three ways: with an integer, with a binary64 number, and with
other quotes and separators. -/
theorem eq_equivalence_nested :
    let a : Value := .list [.list [.number (.int 3) "px"] .comma, .string "x" true] .space
    let three := Number.Binary64.ofInt 3
    let b : Value := .list [.list [.number (.real three) "px"] .comma, .string "x" true] .space
    let c : Value := .list [.list [.number (.real three) "px"] .space, .string "x" false] .comma
    a.eq b = true ∧ b.eq c = true ∧ a.eq c = true := by
  intro a three b c
  have first : a.eq b = true := by decide +kernel
  have second : b.eq c = true := by decide +kernel
  exact ⟨first, second, eq_equivalence.2.1 a b c first second⟩

end Value
end Stylesheet

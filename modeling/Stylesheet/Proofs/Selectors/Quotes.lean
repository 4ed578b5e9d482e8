/-
# Quoted strings in selectors

A selector may hold quoted strings inside its brackets, as in `a[b="c,d"]`.  Written from its parts
(`Selector.Part`), it has brackets and commas outside the strings and perhaps others inside them.
The depth of brackets counts them all, whether in a string or not, so it may go wrong in a string
with brackets (`Selector.split_string_with_bracket`).

Selectors with strings are told apart exactly if the depth comes out right all the same, and that
is so whenever the brackets in each string are balanced (`Selector.split_of_quoted`); commas in
strings do no harm.
-/

import Stylesheet.Proofs.Selectors.Brackets

namespace Stylesheet
namespace Selector

open Text

/-- A part of a selector. -/
inductive Part where
  /-- Text outside quotes. -/
  | text (cs : List Char)
  /-- A string in quotes. -/
  | string (quote : Char) (content : List Char)

namespace Part

/-- The characters that quote a string. -/
def quotes : List Char :=
  ['"', '\'']

/-- A part as it is written. -/
def written : Part → List Char
  | text cs => cs
  | string quote content => quote :: (content ++ [quote])

/-- What of a part is outside quotes. -/
def outside : Part → List Char
  | text cs => cs
  | string .. => []

/-- Whether text has no quotes, and a string neither quotes nor blanks. -/
def IsProper : Part → Prop
  | text cs => ∀ c ∈ cs, c ∉ quotes
  | string quote content => quote ∈ quotes ∧ ∀ c ∈ content, c ∉ quotes ∧ isBlank c = false

/-- Whether the strings among some parts are all inside brackets, `d` of them open before. -/
def Inside (d : Int) : List Part → Prop
  | [] => True
  | text cs :: rest => Inside (d + balance cs) rest
  | string _ _ :: rest => d ≠ 0 ∧ Inside d rest

instance decidableIsProper : (part : Part) → Decidable part.IsProper
  | text cs => inferInstanceAs (Decidable (∀ c ∈ cs, c ∉ quotes))
  | string quote content =>
    inferInstanceAs (Decidable (quote ∈ quotes ∧ ∀ c ∈ content, c ∉ quotes ∧ isBlank c = false))

instance decidableInside : (d : Int) → (parts : List Part) → Decidable (Inside d parts)
  | _, [] => isTrue trivial
  | d, text cs :: rest => decidableInside (d + balance cs) rest
  | d, string _ _ :: rest =>
    have := decidableInside d rest
    inferInstanceAs (Decidable (d ≠ 0 ∧ Inside d rest))

end Part

/-- A selector as it is written. -/
def textOf (parts : List Part) : List Char :=
  parts.flatMap Part.written

/-- What of a selector is outside quotes. -/
def outsideOf (parts : List Part) : List Char :=
  parts.flatMap Part.outside

/-- A selector that is not blank.  Outside quotes its brackets are balanced, with no comma outside
them; its quoted strings are inside brackets and hold neither quotes nor blanks. -/
structure IsQuoted (parts : List Part) : Prop where
  some : ¬Blanks (textOf parts)
  proper : ∀ part ∈ parts, part.IsProper
  balanced : IsBalanced (outsideOf parts)
  commas : ∀ before after, outsideOf parts = before ++ ',' :: after → balance before ≠ 0
  inside : Part.Inside 0 parts

variable {n : Nat} {parts : List Part} {ss : List (List Part)}

/-- The commas of a selector with strings are inside brackets if it is one piece without them. -/
theorem isQuoted_iff : IsQuoted parts ↔ ¬Blanks (textOf parts) ∧ (∀ part ∈ parts, part.IsProper) ∧
    IsBalanced (outsideOf parts) ∧ Unbroken 0 (outsideOf parts) ∧ Part.Inside 0 parts := by
  have whole (balanced : IsBalanced (outsideOf parts)) : Unbroken 0 (outsideOf parts) ↔
      ∀ before after, outsideOf parts = before ++ ',' :: after → balance before ≠ 0 := by
    simpa using unbroken_iff (n := 0) (isBalanced_iff.1 balanced).1
  constructor
  · rintro ⟨some, proper, balanced, commas, inside⟩
    exact ⟨some, proper, balanced, (whole balanced).2 commas, inside⟩
  · rintro ⟨some, proper, balanced, unbroken, inside⟩
    exact ⟨some, proper, balanced, (whole balanced).1 unbroken, inside⟩

instance decidableIsQuoted (parts : List Part) : Decidable (IsQuoted parts) :=
  have : Decidable (Blanks (textOf parts)) := decidableForallMem _
  have : Decidable (∀ part ∈ parts, part.IsProper) := List.decidableBAll _ parts
  decidable_of_iff _ isQuoted_iff.symm

/-- A quote is neither a bracket nor a comma. -/
theorem quote_spec {q : Char} (hq : q ∈ Part.quotes) (n : Nat) :
    bracket q = 0 ∧ depthAfter n q = n ∧ q ≠ ',' := by
  simp only [Part.quotes, List.mem_cons, List.not_mem_nil, or_false] at hq
  rcases hq with rfl | rfl <;> simp [bracket, depthAfter]

/-- **Strings with balanced brackets do not change how the brackets around them stand.** -/
theorem stays_textOf (stays : Stays n (outsideOf parts)) (unbroken : Unbroken n (outsideOf parts))
    (inside : Part.Inside n parts)
    (strings : ∀ q content, .string q content ∈ parts → q ∈ Part.quotes ∧ IsBalanced content) :
    Stays n (textOf parts) ∧ Unbroken n (textOf parts) ∧
      balance (textOf parts) = balance (outsideOf parts) := by
  induction parts generalizing n with
  | nil => exact ⟨stays, unbroken, rfl⟩
  | cons part rest ih =>
    have others q content (mem : .string q content ∈ rest) :=
      strings q content (List.mem_cons_of_mem _ mem)
    cases part with
    | text cs =>
      have split : outsideOf (.text cs :: rest) = cs ++ outsideOf rest := rfl
      have split' : textOf (.text cs :: rest) = cs ++ textOf rest := rfl
      rw [split, stays_append] at stays
      rw [split, unbroken_append] at unbroken
      have depth := depthFrom_eq stays.1
      have inside' : Part.Inside (n + balance cs) rest := inside
      rw [← depth] at stays inside'
      obtain ⟨later, whole, same⟩ := ih stays.2 unbroken.2 inside' others
      rw [split, split', stays_append, unbroken_append, balance_append, balance_append, same,
        ← depth]
      exact ⟨⟨stays.1, later⟩, ⟨unbroken.1, whole⟩, rfl⟩
    | string q content =>
      obtain ⟨hq, balanced⟩ := strings q content List.mem_cons_self
      obtain ⟨outer, inside'⟩ : (n : Int) ≠ 0 ∧ Part.Inside n rest := inside
      obtain ⟨later, whole, same⟩ := ih stays unbroken inside' others
      obtain ⟨none, depth, noComma⟩ := quote_spec hq n
      obtain ⟨stays', total⟩ := isBalanced_iff.1 balanced
      obtain ⟨piece, even⟩ := balanced.unbroken (n := n) fun zero => absurd (by simp [zero]) outer
      have here : 0 ≤ (n : Int) := Int.natCast_nonneg n
      have split : outsideOf (.string q content :: rest) = outsideOf rest := rfl
      have split' : textOf (.string q content :: rest) = q :: (content ++ q :: textOf rest) := by
        simp [textOf, Part.written]
      rw [split, split']
      refine ⟨?_, ?_, ?_⟩
      · rw [stays_cons, stays_append, stays_cons, none, Int.add_zero, total, Int.add_zero,
          Int.add_zero]
        exact ⟨here, stays'.mono here, here, later⟩
      · rw [unbroken_cons, unbroken_append, unbroken_cons, depth, even, depth]
        exact ⟨fun both => noComma both.1, piece, fun both => noComma both.1, whole⟩
      · rw [balance_cons, balance_append, balance_cons, none, total, same]
        simp

/-- Selectors whose strings have balanced brackets are separable. -/
theorem separable_of_quoted (h : ∀ parts ∈ ss, IsQuoted parts)
    (balanced : ∀ parts ∈ ss, ∀ q content, .string q content ∈ parts → IsBalanced content) :
    Separable (ss.map textOf) := by
  refine separable_of_closed fun s hs => ?_
  obtain ⟨parts, mem, rfl⟩ := List.mem_map.1 hs
  obtain ⟨-, proper, even, unbroken, inside⟩ := isQuoted_iff.1 (h parts mem)
  obtain ⟨stays, total⟩ := isBalanced_iff.1 even
  obtain ⟨stays', whole, same⟩ := stays_textOf (n := 0) stays unbroken inside
    fun q content hs => ⟨(proper _ hs).1, balanced parts mem q content hs⟩
  have depth := depthFrom_eq (n := 0) stays'
  exact ⟨whole, by omega⟩

/-- Texts that are not blank are told apart, with a comma and a space between them, exactly if they
are separable. -/
theorem split_intercalate_iff {texts : List String} (some : ∀ s ∈ texts, ¬Blanks s.toList) :
    split (", ".intercalate texts) = texts.map collapse ↔ Separable (texts.map String.toList) := by
  have chars : (", ".intercalate texts).toList =
      (',' :: [' ']).intercalate (texts.map String.toList) ++ [] := by
    rw [String.toList_intercalate, List.append_nil]
    rfl
  have kept : ((texts.map String.toList).map collapseChars).filter (· ≠ []) =
      (texts.map String.toList).map collapseChars := by
    rw [List.filter_eq_self]
    simp only [List.mem_map, exists_exists_and_eq_and, forall_exists_index, and_imp,
      forall_apply_eq_imp_iff₂, decide_eq_true_eq]
    intro s hs none
    refine some s hs fun c hc => ?_
    have black := black_collapseChars s.toList
    rw [none] at black
    simpa using List.filter_eq_nil_iff.1 black.symm c hc
  constructor
  · intro h
    have members := separable_splitChars (", ".intercalate texts).toList
    have same : splitChars (", ".intercalate texts).toList =
        (texts.map String.toList).map collapseChars := by
      have := congrArg (List.map String.toList) h
      simpa [split, collapse, Function.comp_def] using this
    rw [same] at members
    exact separable_map_collapseChars.1 members
  · intro h
    rw [split, chars, splitChars_intercalate h (by unfold Blanks; decide) (List.forall_mem_nil _),
      kept]
    simp [collapse, Function.comp_def]

/-- **Which commas split a list of selectors with quoted strings.**  The list is split into its
members, with their blanks collapsed, exactly if no comma of a member comes at depth 0 and the depth
is 0 after each member but the last, brackets in strings counted like all others.  Then a rule in
the list gets one selector for each member.  And so it is if the brackets in each string are
balanced, whatever commas are in them. -/
theorem split_of_quoted (h : ∀ parts ∈ ss, IsQuoted parts) :
    let list := ", ".intercalate (ss.map fun parts => String.ofList (textOf parts))
    let members := ss.map fun parts => collapse (String.ofList (textOf parts))
    (split list = members ↔ Separable (ss.map textOf)) ∧
    (Separable (ss.map textOf) → ss ≠ [] → ∀ nested s, split nested = [s] →
      resolve nested (some (split list)) = .ok (members.map fun member => join member s)) ∧
    ((∀ parts ∈ ss, ∀ q content, .string q content ∈ parts → IsBalanced content) →
      Separable (ss.map textOf)) := by
  intro list members
  have told : split list = members ↔ Separable (ss.map textOf) := by
    have black : ∀ s ∈ ss.map (fun parts => String.ofList (textOf parts)), ¬Blanks s.toList := by
      simpa using fun parts mem => (h parts mem).some
    simpa [Function.comp_def] using split_intercalate_iff black
  refine ⟨told, fun separable some nested s single => ?_, separable_of_quoted h⟩
  have parents : members ≠ [] := by simp [members, some]
  rw [told.2 separable]
  unfold resolve
  simp only [single, List.isEmpty_cons, Bool.false_eq_true, if_false, Option.getD_some]
  cases e : members with
  | nil => exact absurd e parents
  | cons m ms => exact congrArg Except.ok List.map_eq_flatMap.symm

/-- With balanced brackets and a comma in a string. -/
theorem split_of_quoted_comma :
    let ss : List (List Part) :=
      [[.text "a[b=".toList, .string '"' "(x,y)".toList, .text "]".toList], [.text " c".toList]]
    (∀ parts ∈ ss, IsQuoted parts) ∧
      split "a[b=\"(x,y)\"],  c" = ["a[b=\"(x,y)\"]", "c"] ∧
      resolve "d" (some (split "a[b=\"(x,y)\"],  c")) = .ok ["a[b=\"(x,y)\"] d", "c d"] := by
  intro ss
  have quoted : ∀ parts ∈ ss, IsQuoted parts := by decide +kernel
  obtain ⟨told, nested, balanced⟩ := split_of_quoted quoted
  have strings : ∀ parts ∈ ss, ∀ q content, .string q content ∈ parts → IsBalanced content := by
    simp only [ss, List.mem_cons, List.not_mem_nil, or_false, forall_eq_or_imp, forall_eq,
      reduceCtorEq, false_or, Part.string.injEq, and_imp, IsEmpty.forall_iff, implies_true]
    refine ⟨?_, trivial⟩
    rintro q content rfl rfl
    decide +kernel
  have list : ", ".intercalate (ss.map fun parts => String.ofList (textOf parts)) =
      "a[b=\"(x,y)\"],  c" := by decide +kernel
  have members : (ss.map fun parts => collapse (String.ofList (textOf parts))) =
      ["a[b=\"(x,y)\"]", "c"] := by decide +kernel
  have joined : ["a[b=\"(x,y)\"]", "c"].map (fun member => join member "d") =
      ["a[b=\"(x,y)\"] d", "c d"] := by decide +kernel
  have below := nested (balanced strings) (by simp [ss]) "d" "d" (by decide +kernel)
  rw [list, members] at told
  rw [list, members, joined] at below
  exact ⟨quoted, told.2 (balanced strings), below⟩

/-- **A bracket in a string leaves the depth wrong.**  The comma between two selectors is then
taken for one in brackets, and a rule inside gets one selector instead of two. -/
theorem split_string_with_bracket :
    let ss : List (List Part) :=
      [[.text "a[b=".toList, .string '"' "(".toList, .text "]".toList], [.text "c".toList]]
    (∀ parts ∈ ss, IsQuoted parts) ∧
      ", ".intercalate (ss.map fun parts => String.ofList (textOf parts)) = "a[b=\"(\"], c" ∧
      split "a[b=\"(\"], c" ≠ ss.map (fun parts => collapse (String.ofList (textOf parts))) ∧
      resolve "d" (some (split "a[b=\"(\"], c")) = .ok ["a[b=\"(\"], c d"] := by
  intro ss
  have one : split "a[b=\"(\"], c" = ["a[b=\"(\"], c"] := by decide +kernel
  have nested : split "d" = ["d"] := by decide +kernel
  refine ⟨by decide +kernel, by decide +kernel, by decide +kernel, ?_⟩
  rw [one]
  unfold resolve
  simp only [nested]
  exact congrArg Except.ok (by decide +kernel)

end Selector
end Stylesheet

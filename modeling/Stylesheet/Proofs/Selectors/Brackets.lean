/-
# Brackets in selectors

The balance of a text counts an opening bracket as one more and a closing one as one less.  A
text is balanced if it ends even and never closes more than it has opened
(`Selector.IsBalanced`).  In such a text the depth at which a list of selectors is split, which
ignores a closing bracket too many, is the balance (`Selector.depthFrom_eq`).

So what a balanced text is split into, below balanced parents or with them for every `&`, are
balanced selectors again (`Selector.isMember_of_resolve`), and a list of selectors as it is
printed denotes the list that it was printed from (`Selector.split_of_printed`).
-/

import Stylesheet.Proofs.Selectors.Commas

namespace Stylesheet
namespace Selector

open Text

/-- What a character adds to the number of open brackets. -/
def bracket (c : Char) : Int :=
  if c = '(' || c = '[' then 1 else if c = ')' || c = ']' then -1 else 0

/-- How many brackets more a text opens than it closes. -/
def balance : List Char → Int
  | [] => 0
  | c :: cs => bracket c + balance cs

/-- Whether a text never closes more brackets than are open, `d` of them before it. -/
def Stays (d : Int) (cs : List Char) : Prop :=
  ∀ before, before <+: cs → 0 ≤ d + balance before

/-- Whether a text closes the brackets that it opens and never one more. -/
structure IsBalanced (cs : List Char) : Prop where
  nonneg : ∀ before, before <+: cs → 0 ≤ balance before
  total : balance cs = 0

/-- A selector by itself: it is not empty, its brackets are balanced, its blanks collapsed, and
it has no comma outside brackets. -/
structure IsMember (s : List Char) : Prop where
  nonempty : s ≠ []
  balanced : IsBalanced s
  collapsed : collapseChars s = s
  inside : ∀ before after, s = before ++ ',' :: after → balance before ≠ 0

variable {n : Nat} {d : Int} {c : Char} {cs ds s : List Char} {ss : List (List Char)}

@[simp] theorem balance_nil : balance [] = 0 := rfl

@[simp] theorem balance_cons (c : Char) (cs : List Char) :
    balance (c :: cs) = bracket c + balance cs :=
  rfl

@[simp] theorem balance_append (cs ds : List Char) :
    balance (cs ++ ds) = balance cs + balance ds := by
  induction cs with
  | nil => exact (Int.zero_add _).symm
  | cons c cs ih => rw [List.cons_append, balance_cons, balance_cons, ih, Int.add_assoc]

@[simp] theorem stays_nil : Stays d [] ↔ 0 ≤ d := by
  simp [Stays]

/-- A text stays if its first character does not close too much and the others do not after it. -/
theorem stays_cons : Stays d (c :: cs) ↔ 0 ≤ d ∧ Stays (d + bracket c) cs := by
  constructor
  · intro h
    refine ⟨by simpa using h [] List.nil_prefix, fun before hb => ?_⟩
    simpa [Int.add_assoc] using h (c :: before) (List.cons_prefix_cons.2 ⟨rfl, hb⟩)
  · rintro ⟨here, later⟩ before hb
    rcases List.prefix_cons_iff.1 hb with rfl | ⟨rest, rfl, hr⟩
    · simpa using here
    · simpa [Int.add_assoc] using later rest hr

/-- Two texts stay, one after the other, if the second does after the first. -/
theorem stays_append : Stays d (cs ++ ds) ↔ Stays d cs ∧ Stays (d + balance cs) ds := by
  induction cs generalizing d with
  | nil =>
    refine ⟨fun h => ⟨stays_nil.2 (by simpa using h [] List.nil_prefix), by simpa using h⟩,
      fun h => by simpa using h.2⟩
  | cons c cs ih =>
    rw [List.cons_append, stays_cons, stays_cons, ih, balance_cons, and_assoc, Int.add_assoc]

/-- With more brackets open, a text still closes not too many. -/
theorem Stays.mono {e : Int} (h : Stays d cs) (le : d ≤ e) : Stays e cs :=
  fun before hb => by
    have := h before hb
    omega

/-- A text is balanced if it stays and closes all that it opens. -/
theorem isBalanced_iff : IsBalanced cs ↔ Stays 0 cs ∧ balance cs = 0 :=
  ⟨fun h => ⟨fun before hb => by simpa using h.nonneg before hb, h.total⟩,
    fun h => ⟨fun before hb => by simpa using h.1 before hb, h.2⟩⟩

/-- Whether a text closes too much is decided character by character. -/
instance decidableStays : (d : Int) → (cs : List Char) → Decidable (Stays d cs)
  | _, [] => decidable_of_iff _ stays_nil.symm
  | d, c :: cs =>
    have := decidableStays (d + bracket c) cs
    decidable_of_iff _ stays_cons.symm

instance decidableIsBalanced (cs : List Char) : Decidable (IsBalanced cs) :=
  decidable_of_iff _ isBalanced_iff.symm

/-! ### The depth of a text that closes nothing too much -/

/-- The depth follows the balance as long as a bracket is open to be closed. -/
theorem depthAfter_eq (h : 0 ≤ (n : Int) + bracket c) :
    (depthAfter n c : Int) = n + bracket c := by
  unfold bracket at h ⊢
  unfold depthAfter
  by_cases opening : (c = '(' || c = '[') = true
  · rw [if_pos opening, if_pos opening]
    rfl
  · rw [if_neg opening] at h ⊢
    rw [if_neg opening]
    by_cases closing : (c = ')' || c = ']') = true
    · rw [if_pos closing] at h ⊢
      rw [if_pos closing]
      omega
    · rw [if_neg closing, if_neg closing, Int.add_zero]

/-- The depth after the first character of a text that stays. -/
theorem stays_depthAfter (h : Stays n (c :: cs)) :
    Stays (depthAfter n c) cs ∧ (depthAfter n c : Int) = n + bracket c := by
  obtain ⟨-, later⟩ := stays_cons.1 h
  have eq := depthAfter_eq (by simpa using later [] List.nil_prefix)
  exact ⟨eq ▸ later, eq⟩

/-- **The depth is the balance** as long as no bracket is closed too much. -/
theorem depthFrom_eq (h : Stays n cs) : (depthFrom n cs : Int) = n + balance cs := by
  induction cs generalizing n with
  | nil => simp [depthFrom]
  | cons c cs ih =>
    obtain ⟨later, eq⟩ := stays_depthAfter h
    have rest := ih later
    rw [balance_cons, ← Int.add_assoc, ← eq, ← rest]
    rfl

/-- Where the depth is the balance, so it is before each comma. -/
theorem unbroken_iff (h : Stays n cs) :
    Unbroken n cs ↔
      ∀ before after, cs = before ++ ',' :: after → (n : Int) + balance before ≠ 0 := by
  have same {before after : List Char} (e : cs = before ++ ',' :: after) :
      (depthFrom n before : Int) = n + balance before :=
    depthFrom_eq (stays_append.1 (e ▸ h)).1
  constructor
  · intro unbroken before after e zero
    have := unbroken before after e
    have := same e
    omega
  · intro apart before after e zero
    have := apart before after e
    have := same e
    omega

/-- Inside brackets a balanced text is unbroken, and so it is outside if it is a selector. -/
theorem IsBalanced.unbroken (h : IsBalanced cs) (outside : n = 0 → Unbroken 0 cs) :
    Unbroken n cs ∧ depthFrom n cs = n := by
  obtain ⟨stays, total⟩ := isBalanced_iff.1 h
  have stays' : Stays n cs := stays.mono (Int.natCast_nonneg n)
  refine ⟨?_, by
    have := depthFrom_eq stays'
    omega⟩
  rcases Nat.eq_zero_or_pos n with rfl | inner
  · exact outside rfl
  · refine (unbroken_iff stays').2 fun before after e => ?_
    have := h.nonneg before (e ▸ List.prefix_append before _)
    omega

/-- Whether a text is a selector can be told from where it is split. -/
theorem isMember_iff : IsMember s ↔
    s ≠ [] ∧ IsBalanced s ∧ collapseChars s = s ∧ Unbroken 0 s := by
  have inside (balanced : IsBalanced s) :
      Unbroken 0 s ↔ ∀ before after, s = before ++ ',' :: after → balance before ≠ 0 := by
    simpa using unbroken_iff (n := 0) (isBalanced_iff.1 balanced).1
  constructor
  · rintro ⟨some, balanced, collapsed, apart⟩
    exact ⟨some, balanced, collapsed, (inside balanced).2 apart⟩
  · rintro ⟨some, balanced, collapsed, unbroken⟩
    exact ⟨some, balanced, collapsed, (inside balanced).1 unbroken⟩

instance decidableIsMember (s : List Char) : Decidable (IsMember s) :=
  decidable_of_iff _ isMember_iff.symm

/-- A selector has no comma outside brackets. -/
theorem IsMember.unbroken (h : IsMember s) : Unbroken 0 s :=
  (isMember_iff.1 h).2.2.2

/-- A neat text without a comma outside brackets is a selector, if it is balanced. -/
theorem isMember_of_neat (neat : Neat s) (balanced : IsBalanced s) (unbroken : Unbroken 0 s) :
    IsMember s :=
  isMember_iff.2 ⟨neat.ne_nil, balanced, neat.collapse, unbroken⟩

/-- A selector is neat. -/
theorem IsMember.neat (h : IsMember s) : Neat s := by
  have neat : Neat (collapseChars s) := neat_collapseChars (h.collapsed.symm ▸ h.nonempty)
  rwa [h.collapsed] at neat

/-! ### Blanks -/

/-- A blank is no bracket. -/
theorem bracket_of_blank (blank : isBlank c = true) : bracket c = 0 := by
  simp [bracket, not_bracket_of_blank blank]

/-- Blanks do not count for the balance. -/
theorem balance_black (cs : List Char) : balance (black cs) = balance cs := by
  induction cs with
  | nil => rfl
  | cons c cs ih =>
    cases blank : isBlank c with
    | false => rw [black_cons_of_not_blank blank, balance_cons, balance_cons, ih]
    | true =>
      rw [black_cons_of_blank blank, balance_cons, bracket_of_blank blank, ih, Int.zero_add]

/-- Blanks neither open nor close anything. -/
theorem stays_black : Stays d (black cs) ↔ Stays d cs := by
  induction cs generalizing d with
  | nil => rfl
  | cons c cs ih =>
    cases blank : isBlank c with
    | false => rw [black_cons_of_not_blank blank, stays_cons, stays_cons, ih]
    | true =>
      have here (h : Stays d cs) : 0 ≤ d := by simpa using h [] List.nil_prefix
      rw [black_cons_of_blank blank, stays_cons, ih, bracket_of_blank blank, Int.add_zero]
      exact ⟨fun h => ⟨here h, h⟩, And.right⟩

/-- Collapsing blanks leaves a text balanced. -/
theorem isBalanced_collapseChars : IsBalanced (collapseChars cs) ↔ IsBalanced cs := by
  rw [isBalanced_iff, isBalanced_iff, ← stays_black, ← balance_black, black_collapseChars,
    stays_black, balance_black]

/-! ### Members of a balanced text -/

/-- The pieces of a text that ends even are balanced, but for what the first has to close. -/
theorem balanced_pieces (h : Stays n cs) (total : (n : Int) + balance cs = 0) :
    Stays n (pieces n cs).1 ∧ (n : Int) + balance (pieces n cs).1 = 0 ∧
      ∀ p ∈ (pieces n cs).2, IsBalanced p := by
  induction cs generalizing n with
  | nil => exact ⟨h, total, by simp [pieces]⟩
  | cons c cs ih =>
    obtain ⟨later, eq⟩ := stays_depthAfter h
    rw [balance_cons, ← Int.add_assoc] at total
    rw [pieces]
    split
    · rename_i comma
      simp only [Bool.and_eq_true, decide_eq_true_eq] at comma
      obtain ⟨rfl, rfl⟩ := comma
      obtain ⟨first, closed, others⟩ := ih (n := 0) later (by simpa [bracket] using total)
      refine ⟨by simp, by simp, List.forall_mem_cons.2 ⟨isBalanced_iff.2 ⟨first, ?_⟩, others⟩⟩
      simpa using closed
    · obtain ⟨first, closed, others⟩ := ih later (by rwa [eq])
      rw [eq] at first closed
      refine ⟨stays_cons.2 ⟨Int.natCast_nonneg n, first⟩, ?_, others⟩
      rwa [balance_cons, ← Int.add_assoc]

/-- **The members of a balanced list are selectors**. -/
theorem isMember_of_split {text s : String} (h : IsBalanced text.toList) (hs : s ∈ split text) :
    IsMember s.toList := by
  have neat := neat_of_split hs
  obtain ⟨cs, hcs, rfl⟩ := List.mem_map.1 hs
  have unbroken := (separable_splitChars text.toList).unbroken cs hcs
  obtain ⟨member, -⟩ := List.mem_filter.1 hcs
  obtain ⟨piece, hp, rfl⟩ := List.mem_map.1 member
  obtain ⟨stays, total⟩ := isBalanced_iff.1 h
  obtain ⟨first, closed, others⟩ := balanced_pieces (n := 0) stays (by simpa using total)
  have balanced : IsBalanced piece := by
    rcases List.mem_cons.1 hp with rfl | hp
    · exact isBalanced_iff.2 ⟨first, by simpa using closed⟩
    · exact others piece hp
  rw [String.toList_ofList] at neat ⊢
  exact isMember_of_neat neat (isBalanced_collapseChars.2 balanced) unbroken

/-! ### Selectors below others -/

/-- A balanced text put for every `&` in another keeps its balance. -/
theorem stays_substitute (parent : IsBalanced ds) (h : Stays d cs) :
    Stays d (cs.flatMap fun c => if c = '&' then ds else [c]) ∧
      balance (cs.flatMap fun c => if c = '&' then ds else [c]) = balance cs := by
  obtain ⟨stays, total⟩ := isBalanced_iff.1 parent
  induction cs generalizing d with
  | nil => exact ⟨h, rfl⟩
  | cons c cs ih =>
    obtain ⟨here, later⟩ := stays_cons.1 h
    obtain ⟨rest, same⟩ := ih later
    rw [List.flatMap_cons, stays_append, balance_append, balance_cons, same]
    split
    · subst c
      have none : bracket '&' = 0 := by decide
      rw [none, Int.add_zero] at rest
      rw [total, none, Int.add_zero]
      exact ⟨⟨stays.mono here, rest⟩, rfl⟩
    · refine ⟨⟨stays_cons.2 ⟨here, stays_nil.2 ?_⟩, by simpa using rest⟩, by simp⟩
      simpa using later [] List.nil_prefix

/-- A selector put for every `&` in a text brings no comma outside brackets. -/
theorem unbroken_substitute (parent : IsBalanced ds) (whole : Unbroken 0 ds)
    (h : Unbroken n cs) : Unbroken n (cs.flatMap fun c => if c = '&' then ds else [c]) := by
  induction cs generalizing n with
  | nil => exact unbroken_nil n
  | cons c cs ih =>
    obtain ⟨here, later⟩ := unbroken_cons.1 h
    have rest := ih later
    rw [List.flatMap_cons, unbroken_append]
    split
    · subst c
      obtain ⟨unbroken, same⟩ := parent.unbroken (n := n) fun _ => whole
      rw [same]
      exact ⟨unbroken, rest⟩
    · exact ⟨unbroken_cons.2 ⟨here, unbroken_nil _⟩, rest⟩

/-- **Below a selector, or with it for every `&`, a selector is one.** -/
theorem isMember_joinChars {parent : List Char} (h : IsMember parent) (k : IsMember s) :
    IsMember (joinChars parent s) := by
  obtain ⟨stays, total⟩ := isBalanced_iff.1 h.balanced
  obtain ⟨stays', total'⟩ := isBalanced_iff.1 k.balanced
  unfold joinChars
  split
  · obtain ⟨substituted, same⟩ := stays_substitute h.balanced stays'
    exact isMember_of_neat (k.neat.substitute h.neat)
      (isBalanced_iff.2 ⟨substituted, same.trans total'⟩)
      (unbroken_substitute h.balanced h.unbroken k.unbroken)
  · obtain ⟨-, closed⟩ := h.balanced.unbroken (n := 0) fun _ => h.unbroken
    have space : bracket ' ' = 0 := by decide
    have spaced : Stays 0 (' ' :: s) := stays_cons.2 ⟨Int.le_refl 0, by rwa [space]⟩
    refine isMember_of_neat (h.neat.below k.neat) (isBalanced_iff.2 ⟨?_, ?_⟩) ?_
    · rw [stays_append, total]
      exact ⟨stays, spaced⟩
    · rw [balance_append, balance_cons, total, total', space]
      rfl
    · rw [unbroken_append, closed, unbroken_cons]
      exact ⟨h.unbroken, by simp, k.unbroken⟩

/-- **What a balanced text is resolved to are selectors** if its parents are. -/
theorem isMember_of_resolve {text : String} {parents : Option (List String)} {found : List String}
    (balanced : IsBalanced text.toList) (members : ∀ ps ∈ parents, ∀ p ∈ ps, IsMember p.toList)
    (h : resolve text parents = .ok found) : ∀ s ∈ found, IsMember s.toList := by
  intro s hs
  unfold resolve at h
  extract_lets selectors at h
  split at h
  · cases h
  · split at h
    · split at h
      · cases h
      · obtain rfl := Except.ok.inj h
        exact isMember_of_split balanced hs
    · obtain rfl := Except.ok.inj h
      obtain ⟨parent, hparent, joined⟩ := List.mem_flatMap.1 hs
      obtain ⟨member, hmember, rfl⟩ := List.mem_map.1 joined
      rw [join, String.toList_ofList]
      refine isMember_joinChars ?_ (isMember_of_split balanced hmember)
      cases parents with
      | none => cases hparent
      | some ps => exact members ps rfl parent hparent

/-! ### Lists as they are printed -/

/-- Separable texts whose blanks are collapsed, with a comma and perhaps a space between them. -/
theorem split_intercalate {r : List String} (h : Separable (r.map String.toList))
    (collapsed : ∀ s ∈ r, s.toList ≠ [] ∧ collapseChars s.toList = s.toList) {sep : String}
    (comma : ∃ g, sep.toList = ',' :: g ∧ Blanks g) : split (sep.intercalate r) = r := by
  obtain ⟨g, e, blank⟩ := comma
  have members := splitChars_intercalate_eq h (by simpa using collapsed) blank
    (List.forall_mem_nil _)
  rw [List.append_nil] at members
  rw [split, String.toList_intercalate, e, members]
  simp

/-- The separator of lists that are written out. -/
theorem comma_space : ∃ g, ", ".toList = ',' :: g ∧ Blanks g :=
  ⟨[' '], by decide, by unfold Blanks; decide⟩

/-- The separator of lists that are compressed. -/
theorem comma_alone : ∃ g, ",".toList = ',' :: g ∧ Blanks g :=
  ⟨[], by decide, List.forall_mem_nil _⟩

/-- **A printed list of selectors denotes the list that it was printed from**, with a space after
each comma or without.  So it is for the members of any text; and for what a balanced text is
resolved to below any selectors, which are selectors again. -/
theorem split_of_printed :
    (∀ text : String, split (", ".intercalate (split text)) = split text ∧
      split (",".intercalate (split text)) = split text) ∧
    ∀ (text : String) (parents : Option (List String)) (r : List String),
      IsBalanced text.toList → (∀ ps ∈ parents, ∀ p ∈ ps, IsMember p.toList) →
        resolve text parents = .ok r → (∀ s ∈ r, IsMember s.toList) ∧
          split (", ".intercalate r) = r ∧ split (",".intercalate r) = r := by
  refine ⟨fun text => ?_, fun text parents r balanced members h => ?_⟩
  · have separable : Separable ((split text).map String.toList) := by
      simpa [split, Function.comp_def] using separable_splitChars text.toList
    have collapsed : ∀ s ∈ split text, s.toList ≠ [] ∧ collapseChars s.toList = s.toList :=
      fun s hs => ⟨(neat_of_split hs).ne_nil, (neat_of_split hs).collapse⟩
    exact ⟨split_intercalate separable collapsed comma_space,
      split_intercalate separable collapsed comma_alone⟩
  · have found := isMember_of_resolve balanced members h
    have separable : Separable (r.map String.toList) := by
      refine separable_of_closed fun s hs => ?_
      obtain ⟨t, ht, rfl⟩ := List.mem_map.1 hs
      exact (found t ht).balanced.unbroken fun _ => (found t ht).unbroken
    have collapsed : ∀ s ∈ r, s.toList ≠ [] ∧ collapseChars s.toList = s.toList :=
      fun s hs => ⟨(found s hs).nonempty, (found s hs).collapsed⟩
    exact ⟨found, split_intercalate separable collapsed comma_space,
      split_intercalate separable collapsed comma_alone⟩

/-- With commas in brackets, also in those that `&` stands in. -/
theorem split_of_printed_nested :
    let text := "a:not(&, b), > c[d]"
    let r := ["a:not(p:is(q, r), b)", "p:is(q, r) > c[d]"]
    IsBalanced text.toList ∧ (∀ ps ∈ some ["p:is(q, r)"], ∀ p ∈ ps, IsMember p.toList) ∧
      resolve text (some ["p:is(q, r)"]) = .ok r ∧
        (∀ s ∈ r, IsMember s.toList) ∧ split (", ".intercalate r) = r ∧
          split (",".intercalate r) = r := by
  intro text r
  have balanced : IsBalanced text.toList := by decide +kernel
  have parent : IsMember "p:is(q, r)".toList := by decide +kernel
  have members : ∀ ps ∈ some ["p:is(q, r)"], ∀ p ∈ ps, IsMember p.toList := by
    rintro _ ⟨⟩ p hp
    exact List.mem_singleton.1 hp ▸ parent
  have resolved : resolve text (some ["p:is(q, r)"]) = .ok r := by
    have written : split text = ["a:not(&, b)", "> c[d]"] := by decide +kernel
    unfold resolve
    simp only [written]
    exact congrArg Except.ok (by decide +kernel)
  exact ⟨balanced, members, resolved, split_of_printed.2 text _ r balanced members resolved⟩

end Selector
end Stylesheet

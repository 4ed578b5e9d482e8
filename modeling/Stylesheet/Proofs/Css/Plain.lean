/-
# Plain style sheets

A laid-out tree is *plain* if its selectors, queries, names and values are made of small
letters (`Node.IsPlainSheet`): rules of declarations, at the top or in a query.  `Node.form`
is what counts of a tree when only its shape and its resolved texts do.

A list of selectors is read as it is written, whatever separates its members
(`Css.resolve_header`), and so are queries, names and values.
-/

import Stylesheet.Css.Item
import Stylesheet.Proofs.Grammar.Simple
import Stylesheet.Proofs.Selectors.Commas

namespace Stylesheet

/-- What counts of a tree when only kinds, resolved texts and order do. -/
inductive Form where
  | node (kind : Kind) (texts : List String) (content : List Form)

/-- The resolved texts of a node with this head. -/
def Head.resolvedTexts : Head → List String
  | rule _ resolved => resolved.getD []
  | declaration _ _ name value => name.toList ++ value.toList
  | directive _ resolved _ | media _ resolved | supports _ resolved | extend _ resolved =>
    resolved.toList
  | importSheet uri => [uri]
  | comment text _ => [text]
  | _ => []

namespace Node

mutual

/-- The form of a tree. -/
def form : Node → Form
  | plain _ h cs => .node h.kind h.resolvedTexts (formAll cs)
  | cond _ _ cs o => .node .cond [] (formAll cs ++ formOption o)

/-- The forms of some trees. -/
def formAll : List Node → List Form
  | [] => []
  | n :: ns => n.form :: formAll ns

/-- The form of a clause that may be absent. -/
def formOption : Option Node → List Form
  | none => []
  | some n => [n.form]

end

end Node

namespace Css

/-- Some texts with a separator between them. -/
def Joined (separator : String) (part : String → Prop) (s : String) : Prop :=
  ∃ parts : List String, parts ≠ [] ∧ (∀ p ∈ parts, part p) ∧ s = separator.intercalate parts

/-- A word of small letters. -/
def Word (s : String) : Prop :=
  s ≠ "" ∧ ∀ x ∈ s.toList, x.isLower = true

instance (s : String) : Decidable (Word s) :=
  inferInstanceAs (Decidable (_ ∧ _))

/-- A word that may have a full stop before it. -/
def DottedWord (s : String) : Prop :=
  ∃ w, Word w ∧ (s = w ∨ s = "." ++ w)

end Css

namespace Node

open Css

/-- A declaration with hyphenated words for its name and a word for its value. -/
inductive IsPlainDeclaration : Node → Prop where
  | mk {info : Info} {written : Template} {expr : Option Expr} {name value : String}
    (hname : Joined "-" Word name) (hvalue : Word value) (notNull : value ≠ "null") :
    IsPlainDeclaration (.plain info (.declaration written expr (some name) (some value)) [])

/-- A rule with selectors of words, and some plain declarations. -/
inductive IsPlainRule : Node → Prop where
  | mk {info : Info} {written : Template} {selectors : List String} {content : List Node}
    (some : selectors ≠ []) (words : ∀ s ∈ selectors, Joined " " DottedWord s)
    (someContent : content ≠ []) (plain : ∀ n ∈ content, n.IsPlainDeclaration) :
    IsPlainRule (.plain info (.rule written (.some selectors)) content)

/-- A query of words, and some plain rules. -/
inductive IsPlainMedia : Node → Prop where
  | mk {info : Info} {written : Template} {query : String} {content : List Node}
    (words : Joined " " Word query) (someContent : content ≠ [])
    (plain : ∀ n ∈ content, n.IsPlainRule) :
    IsPlainMedia (.plain info (.media written (some query)) content)

/-- A document of plain rules and queries. -/
inductive IsPlainSheet : Node → Prop where
  | mk {info : Info} {content : List Node}
    (plain : ∀ n ∈ content, n.IsPlainRule ∨ n.IsPlainMedia) :
    IsPlainSheet (.plain info .root content)

end Node

namespace Css

open Grammar Text

variable {s : String}

/-- A word is made of small letters. -/
theorem Word.isWord (h : Word s) : IsWord s.toList where
  nonempty empty := h.1 (by simpa using empty)
  lower := h.2

/-- A word, as a text of some characters. -/
theorem Word.madeOf (h : Word s) : MadeOf letters letters s.toList :=
  h.isWord.madeOf

/-- A word with dots, as a text of some characters. -/
theorem DottedWord.madeOf (h : DottedWord s) :
    MadeOf ('.' :: letters) ('.' :: letters) s.toList := by
  obtain ⟨w, hw, rfl | rfl⟩ := h
  · exact hw.madeOf.mono (List.subset_cons_self ..) (List.subset_cons_self ..)
  · show MadeOf _ _ ("." ++ w).toList
    rw [String.toList_append]
    exact ⟨List.mem_cons_self, fun x hx =>
      List.mem_cons_of_mem _ (hw.madeOf.mem (List.Subset.refl _) hx)⟩

/-- The characters of texts with a separator between them. -/
theorem Joined.madeOf {separator : String} {part : String → Prop} {first others : List Char}
    (h : Joined separator part s) (hpart : ∀ p, part p → MadeOf first others p.toList)
    (sub : first ⊆ others) (hsep : ∀ x ∈ separator.toList, x ∈ others) :
    MadeOf first others s.toList := by
  obtain ⟨parts, some, all, rfl⟩ := h
  rw [String.toList_intercalate]
  refine .intercalate (by simpa using some) ?_ sub hsep
  simp only [List.mem_map, forall_exists_index, and_imp, forall_apply_eq_imp_iff₂]
  exact fun p hp => hpart p (all p hp)

/-- Words joined by hyphens are the name of a property. -/
theorem isPropertyText (h : Joined "-" Word s) : IsPropertyText s.toList :=
  h.madeOf (fun _ hp => hp.madeOf.mono (List.Subset.refl _) (List.subset_cons_self ..))
    (List.subset_cons_self ..) (by decide)

/-- No character of a word with dots is blank. -/
theorem not_blank_of_mem {x : Char} (h : x ∈ '.' :: letters) : isBlank x = false := by
  have all : ∀ x ∈ '.' :: letters, isBlank x = false := by decide
  exact all x h

/-- Words with single spaces between them are laid out. -/
theorem neat_of_joined {part : String → Prop} (h : Joined " " part s)
    (hpart : ∀ p, part p → MadeOf ('.' :: letters) ('.' :: letters) p.toList) :
    Selector.Neat s.toList := by
  obtain ⟨parts, some, all, rfl⟩ := h
  rw [String.toList_intercalate]
  refine Selector.neat_intercalate (by simpa using some) ?_
  simp only [List.mem_map, forall_exists_index, and_imp, forall_apply_eq_imp_iff₂]
  exact fun p hp => ⟨(hpart p (all p hp)).ne_nil, fun x hx =>
    not_blank_of_mem ((hpart p (all p hp)).mem (List.Subset.refl _) hx)⟩

/-- The space that only expanded output has. -/
def space : Style → List Char
  | .expanded => [' ']
  | .compressed => []

/-- The space of a style is blank. -/
theorem blanks_space (style : Style) : Blanks (space style) := by
  cases style with
  | expanded => exact List.forall_mem_singleton.2 (by decide)
  | compressed => exact List.forall_mem_nil _

/-- The separator of a style is a comma and the space of the style. -/
theorem toList_selectorSeparator (style : Style) :
    (selectorSeparator style).toList = ',' :: space style := by
  cases style <;> rfl

/-- The selectors of a rule as they are written before its brace. -/
def selectorText (style : Style) (selectors : List String) : List Char :=
  ((selectorSeparator style).intercalate selectors).toList ++ space style

/-- A query as it is written before its brace. -/
def queryText (style : Style) (query : String) : List Char :=
  query.toList ++ space style

/-- The space of a style is a space. -/
theorem mem_of_mem_space {style : Style} {x : Char} (h : x ∈ space style) : x = ' ' := by
  cases style with
  | expanded => exact List.mem_singleton.1 h
  | compressed => cases h

/-- The words of a query, in either style. -/
theorem isQueryText (style : Style) (h : Joined " " Word s) :
    IsQueryText (queryText style s) := by
  have made : MadeOf letters (' ' :: letters) s.toList :=
    h.madeOf (fun _ hp => hp.madeOf.mono (List.Subset.refl _) (List.subset_cons_self ..))
      (List.subset_cons_self ..) (by decide)
  refine made.append fun x hx => ?_
  rw [mem_of_mem_space hx]
  exact List.mem_cons_self

/-- The characters of a selector. -/
theorem madeOf_selector (h : Joined " " DottedWord s) :
    MadeOf ('.' :: letters) ('.' :: ' ' :: letters) s.toList := by
  have wider : '.' :: letters ⊆ '.' :: ' ' :: letters :=
    List.cons_subset_cons _ (List.subset_cons_self ..)
  exact h.madeOf (fun _ hp => hp.madeOf.mono (List.Subset.refl _) wider) wider (by decide)

/-- The selectors of a rule, in either style. -/
theorem isSelectorText {selectors : List String} (style : Style) (some : selectors ≠ [])
    (words : ∀ s ∈ selectors, Joined " " DottedWord s) :
    IsSelectorText (selectorText style selectors) := by
  have list : Joined (selectorSeparator style) (Joined " " DottedWord)
      ((selectorSeparator style).intercalate selectors) := ⟨selectors, some, words, rfl⟩
  have sep : ∀ x ∈ (selectorSeparator style).toList, x ∈ '.' :: ',' :: ' ' :: letters := by
    cases style <;> decide
  have wider : '.' :: ' ' :: letters ⊆ '.' :: ',' :: ' ' :: letters :=
    List.cons_subset_cons _ (List.subset_cons_self ..)
  have dotted : '.' :: letters ⊆ '.' :: ',' :: ' ' :: letters :=
    List.cons_subset_cons _ (List.Subset.trans (List.subset_cons_self ..) (List.subset_cons_self ..))
  refine MadeOf.append (list.madeOf (fun p hp => ?_) dotted sep) fun x hx => ?_
  · exact (madeOf_selector hp).mono (List.Subset.refl _) wider
  · rw [mem_of_mem_space hx]
    decide

/-- A selector of words has no commas and no brackets. -/
theorem isWhole_selector (h : Joined " " DottedWord s) : Selector.IsWhole s.toList := by
  intro x hx
  have apart : ∀ x ∈ '.' :: ' ' :: letters, x ∉ [',', '(', ')', '[', ']'] := by decide
  exact apart x ((madeOf_selector h).mem
    (List.cons_subset_cons _ (List.subset_cons_self ..)) hx)

/-- **A list of selectors is resolved to what it is written from.** -/
theorem resolve_selectorText {selectors : List String} (style : Style) (some : selectors ≠ [])
    (words : ∀ s ∈ selectors, Joined " " DottedWord s) :
    Selector.resolve (String.ofList (selectorText style selectors)) none = .ok selectors := by
  have splits : Selector.split (String.ofList (selectorText style selectors)) = selectors := by
    rw [Selector.split, String.toList_ofList, selectorText, String.toList_intercalate,
      toList_selectorSeparator, Selector.splitChars_intercalate_eq
        (Selector.separable_of_isWhole ?_) ?_ (blanks_space style) (blanks_space style),
      List.map_map]
    · simp [Function.comp_def]
    · simp only [List.mem_map, forall_exists_index, and_imp, forall_apply_eq_imp_iff₂]
      exact fun s hs => isWhole_selector (words s hs)
    · simp only [List.mem_map, forall_exists_index, and_imp, forall_apply_eq_imp_iff₂]
      intro s hs
      have neat := neat_of_joined (words s hs) fun _ hp => hp.madeOf
      exact ⟨neat.ne_nil, neat.collapse⟩
  have noParent : ∀ s ∈ selectors, '&' ∉ s.toList := by
    intro s hs mem
    have all : ∀ x ∈ '.' :: ' ' :: letters, x ≠ '&' := by decide
    exact all _ ((madeOf_selector (words s hs)).mem
      (List.cons_subset_cons _ (List.subset_cons_self ..)) mem) rfl
  rw [Selector.resolve, splits]
  simpa [some] using noParent

/-- The space of the style does not count for a query. -/
theorem collapse_queryText (style : Style) (h : Joined " " Word s) :
    collapse (String.ofList (queryText style s)) = s := by
  have neat := neat_of_joined h fun _ hp =>
    hp.madeOf.mono (List.subset_cons_self ..) (List.subset_cons_self ..)
  have around : collapseChars (queryText style s) = collapseChars s.toList :=
    collapseChars_around (List.forall_mem_nil _) (blanks_space style) s.toList
  rw [collapse, String.toList_ofList, around, neat.collapse, String.ofList_toList]

/-- A name with hyphens has no blanks to trim. -/
theorem trim_of_propertyText {n : List Char} (h : IsPropertyText n) :
    trim (String.ofList n) = String.ofList n := by
  have black : ∀ x ∈ n, isBlank x = false := by
    intro x hx
    have all : ∀ x ∈ '-' :: letters, isBlank x = false := by decide
    exact all x (h.mem (List.subset_cons_self ..) hx)
  have same (cs : List Char) (h : ∀ x ∈ cs, isBlank x = false) : cs.dropWhile isBlank = cs := by
    cases cs with
    | nil => rfl
    | cons x cs => simp [h x]
  rw [trim, String.toList_ofList, trimChars, trimEnd, same _ black, same _ (by simpa using black),
    List.reverse_reverse]

/-- A name of words has no blanks around it. -/
theorem trim_of_joined (h : Joined "-" Word s) : trim s = s := by
  have trimmed := trim_of_propertyText (isPropertyText h)
  rwa [String.ofList_toList] at trimmed

/-- **A word that is a value is written as it is**, whatever it reads as. -/
theorem css_ofWord (h : Word s) (notNull : s ≠ "null") :
    ∃ v, Expr.ofWord s = .literal v ∧ v.css = .ok s := by
  unfold Expr.ofWord
  split
  · subst s
    exact ⟨_, rfl, rfl⟩
  · split
    · subst s
      exact ⟨_, rfl, rfl⟩
    · exact ⟨_, rfl, rfl⟩

end Css
end Stylesheet

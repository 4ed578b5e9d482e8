/-
# Complete selectors

A selector is complete if it needs no rule around it and its blanks are laid out: it is not
empty, has no `&`, neither begins nor ends with a blank, and has no blanks but single spaces
(`Selector.IsComplete`).  What `Selector.resolve` makes of a text and of complete parents is
complete (`Selector.complete_of_resolve`).

The proof looks at a selector with a space on either side: it is laid out if no two blanks
meet there (`Selector.Neat`), which is kept when selectors are joined with a space and when
one is put for every `&` in another.
-/

import Stylesheet.Selector
import Stylesheet.Proofs.Text.Words
import Mathlib.Data.List.Chain

namespace Stylesheet
namespace Selector

open Text

/-- A selector that needs no rule around it, with its blanks laid out. -/
structure IsComplete (s : String) : Prop where
  nonempty : s ≠ ""
  absolute : '&' ∉ s.toList
  leading : ∀ c ∈ s.toList.head?, isBlank c = false
  trailing : ∀ c ∈ s.toList.getLast?, isBlank c = false
  spaces : ∀ c ∈ s.toList, isBlank c → c = ' '
  single : ∀ before after, s.toList ≠ before ++ ' ' :: ' ' :: after

/-- At most one of two characters is a blank. -/
def Apart (a b : Char) : Prop :=
  isBlank a = false ∨ isBlank b = false

/-- A text whose blanks are spaces, no two of which meet, also with a space on either side. -/
structure Neat (cs : List Char) : Prop where
  apart : List.IsChain Apart (' ' :: (cs ++ [' ']))
  spaces : ∀ c ∈ cs, isBlank c → c = ' '

namespace Neat

variable {cs ds : List Char}

/-- A neat text is not empty. -/
theorem ne_nil (h : Neat cs) : cs ≠ [] := by
  rintro rfl
  have meet : Apart ' ' ' ' := (List.isChain_cons_cons.1 h.apart).1
  revert meet
  unfold Apart
  decide

/-- No two blanks of a neat text meet. -/
theorem apart_inside (h : Neat cs) : List.IsChain Apart cs :=
  (List.isChain_cons.1 h.apart).2.left_of_append

/-- A neat text does not start with a blank. -/
theorem leading (h : Neat cs) : ∀ c ∈ cs.head?, isBlank c = false := by
  intro c hc
  have first := (List.isChain_cons.1 h.apart).1 c (by
    rw [List.head?_append_of_ne_nil _ h.ne_nil]
    exact hc)
  exact first.resolve_left (by decide)

/-- A neat text does not end with a blank. -/
theorem trailing (h : Neat cs) : ∀ c ∈ cs.getLast?, isBlank c = false := by
  intro c hc
  have last := (List.isChain_append.1 (List.isChain_cons.1 h.apart).2).2.2 c hc ' ' rfl
  exact last.resolve_right (by decide)

/-- Two texts with a space between them. -/
theorem below (h : Neat cs) (k : Neat ds) : Neat (cs ++ ' ' :: ds) where
  apart := by
    have whole : ' ' :: ((cs ++ ' ' :: ds) ++ [' ']) = (' ' :: cs) ++ ' ' :: (ds ++ [' ']) := by
      simp
    rw [whole, List.isChain_split]
    exact ⟨h.apart, k.apart⟩
  spaces c hc blank := by
    rcases List.mem_append.1 hc with hc | hc
    · exact h.spaces c hc blank
    · rcases List.mem_cons.1 hc with rfl | hc
      · rfl
      · exact k.spaces c hc blank

/-- A text put for every `&` in another. -/
theorem substitute (h : Neat cs) (k : Neat ds) :
    Neat (cs.flatMap fun c => if c = '&' then ds else [c]) := by
  have some (c : Char) : (if c = '&' then ds else [c]) ≠ [] := by
    split
    · exact k.ne_nil
    · simp
  refine ⟨?_, fun x hx blank => ?_⟩
  · have padded : ' ' :: ((cs.flatMap fun c => if c = '&' then ds else [c]) ++ [' ']) =
        ((' ' :: (cs ++ [' '])).map fun c => if c = '&' then ds else [c]).flatten := by
      simp [List.flatMap_def]
    have each : ∀ l ∈ (' ' :: (cs ++ [' '])).map (fun c => if c = '&' then ds else [c]),
        List.IsChain Apart l := by
      intro l hl
      obtain ⟨c, -, rfl⟩ := List.mem_map.1 hl
      split
      · exact k.apart_inside
      · exact .singleton c
    have between (a b : Char) (apart : Apart a b) :
        ∀ x ∈ (if a = '&' then ds else [a]).getLast?,
          ∀ y ∈ (if b = '&' then ds else [b]).head?, Apart x y := by
      intro x hx y hy
      rcases apart with ha | hb
      · left
        split at hx
        · exact k.trailing x hx
        · cases hx
          exact ha
      · right
        split at hy
        · exact k.leading y hy
        · cases hy
          exact hb
    rw [padded, List.isChain_flatten (by simpa using fun c _ => some c)]
    exact ⟨each, List.isChain_map_of_isChain _ between h.apart⟩
  · obtain ⟨c, hc, hx⟩ := List.mem_flatMap.1 hx
    split at hx
    · exact k.spaces x hx blank
    · cases List.mem_singleton.1 hx
      exact h.spaces x hc blank

end Neat

/-- Words with a space before and after them. -/
theorem isChain_black {w : List Char} (black : ∀ x ∈ w, isBlank x = false) {a : Char}
    (start : isBlank a = false ∨ w ≠ []) : List.IsChain Apart (a :: (w ++ [' '])) := by
  induction w generalizing a with
  | nil => exact List.isChain_pair.2 (.inl (start.resolve_right (by simp)))
  | cons x w ih =>
    obtain ⟨hx, hw⟩ := List.forall_mem_cons.1 black
    exact List.isChain_cons_cons.2 ⟨.inr hx, ih hw (.inl hx)⟩

/-- Words with single spaces between them. -/
theorem neat_intercalate {parts : List (List Char)} (some : parts ≠ [])
    (black : ∀ w ∈ parts, IsBlackWord w) : Neat ([' '].intercalate parts) := by
  induction parts with
  | nil => exact absurd rfl some
  | cons w parts ih =>
    obtain ⟨hw, others⟩ := List.forall_mem_cons.1 black
    have first : Neat w :=
      ⟨isChain_black hw.black (.inr hw.nonempty), fun c hc blank => by simp [hw.black c hc] at blank⟩
    cases parts with
    | nil => rwa [List.intercalate_singleton]
    | cons v parts =>
      rw [List.intercalate_cons_cons, List.append_assoc]
      exact first.below (ih (by simp) others)

/-- A text with its blanks collapsed, unless there is nothing else in it. -/
theorem neat_collapseChars {cs : List Char} (some : collapseChars cs ≠ []) :
    Neat (collapseChars cs) := by
  refine neat_intercalate (fun none => some ?_) fun w hw => ⟨words_ne_nil hw, words_all hw⟩
  rw [collapseChars, none, List.intercalate_nil]

/-- The words from a place on where a word goes on or starts, of a text that is laid out. -/
theorem intercalate_wordsFrom {word cs : List Char} (apart : List.IsChain Apart (cs ++ [' ']))
    (spaces : ∀ c ∈ cs, isBlank c → c = ' ')
    (start : word ≠ [] ∨ ∃ c ∈ cs.head?, isBlank c = false) :
    [' '].intercalate (wordsFrom word cs) = word.reverse ++ cs := by
  induction cs generalizing word with
  | nil =>
    have some : word ≠ [] := start.resolve_right (by simp)
    simp [wordsFrom, some]
  | cons c cs ih =>
    have rest := (List.isChain_cons.1 apart).2
    obtain ⟨hc, hcs⟩ := List.forall_mem_cons.1 spaces
    cases blank : isBlank c with
    | false =>
      rw [wordsFrom, if_neg (by simp [blank]), ih rest hcs (.inl (List.cons_ne_nil c word))]
      simp
    | true =>
      obtain rfl := hc blank
      have some : word ≠ [] := start.resolve_right (by simp [blank])
      -- another character follows the space, which is no blank
      have next : ∃ c ∈ cs.head?, isBlank c = false := by
        cases cs with
        | nil =>
          have meet : Apart ' ' ' ' := List.isChain_pair.1 apart
          exact absurd meet (by unfold Apart; decide)
        | cons d cs =>
          have meet : Apart ' ' d := (List.isChain_cons_cons.1 apart).1
          exact ⟨d, rfl, meet.resolve_left (by decide)⟩
      have more : [' '].intercalate (wordsFrom [] cs) = cs := ih rest hcs (.inr next)
      rw [wordsFrom, if_pos blank, if_neg (by simpa using some)]
      cases others : wordsFrom [] cs with
      | nil =>
        rw [others] at more
        obtain ⟨d, hd, -⟩ := next
        rw [← show [] = cs from more] at hd
        cases hd
      | cons v ws =>
        rw [List.intercalate_cons_cons, ← others, more]
        simp

/-- A text that is laid out is its own collapsed form. -/
theorem Neat.collapse {cs : List Char} (h : Neat cs) : collapseChars cs = cs := by
  obtain ⟨c, rest, rfl⟩ := List.exists_cons_of_ne_nil h.ne_nil
  exact intercalate_wordsFrom (List.isChain_cons.1 h.apart).2 h.spaces
    (.inr ⟨c, rfl, h.leading c rfl⟩)

/-- A neat text without `&` needs no rule around it. -/
theorem isComplete_of_neat {cs : List Char} (h : Neat cs) (absolute : '&' ∉ cs) :
    IsComplete (String.ofList cs) where
  nonempty empty := by
    rw [String.ofList_eq_empty_iff] at empty
    exact h.ne_nil empty
  absolute := by rwa [String.toList_ofList]
  leading := by simpa using h.leading
  trailing := by simpa using h.trailing
  spaces := by simpa using h.spaces
  single before after split := by
    rw [String.toList_ofList] at split
    have meet : Apart ' ' ' ' :=
      List.isChain_iff_forall_rel_of_append_cons_cons.1 h.apart_inside split
    revert meet
    unfold Apart
    decide

/-- A complete selector is laid out. -/
theorem IsComplete.neat {s : String} (h : IsComplete s) : Neat s.toList := by
  have some : s.toList ≠ [] := fun empty => h.nonempty (String.toList_eq_nil_iff.1 empty)
  have inside : List.IsChain Apart s.toList := by
    refine List.isChain_iff_forall_rel_of_append_cons_cons.2 fun {a b before after} split => ?_
    by_contra meet
    obtain ⟨ha, hb⟩ := not_or.1 meet
    have member (c : Char) (hc : c = a ∨ c = b) : c ∈ s.toList := by
      rw [split]
      rcases hc with rfl | rfl <;> simp
    cases h.spaces a (member a (.inl rfl)) (by simpa using ha)
    cases h.spaces b (member b (.inr rfl)) (by simpa using hb)
    exact h.single before after split
  refine ⟨List.isChain_cons.2 ⟨fun c hc => ?_, ?_⟩, h.spaces⟩
  · rw [List.head?_append_of_ne_nil _ some] at hc
    exact .inr (h.leading c hc)
  · refine List.isChain_append.2 ⟨inside, .singleton _, fun c hc _ _ => ?_⟩
    exact .inl (h.trailing c hc)

/-- The members of a list of selectors are laid out. -/
theorem neat_of_split {text s : String} (h : s ∈ split text) : Neat s.toList := by
  obtain ⟨cs, hcs, rfl⟩ := List.mem_map.1 h
  obtain ⟨member, some⟩ := List.mem_filter.1 hcs
  obtain ⟨piece, -, rfl⟩ := List.mem_map.1 member
  rw [String.toList_ofList]
  exact neat_collapseChars (by simpa using some)

/-- Below a complete selector, or with it for every `&`, a selector is complete. -/
theorem isComplete_join {parent s : String} (h : IsComplete parent) (k : Neat s.toList) :
    IsComplete (join parent s) := by
  unfold join joinChars
  split
  · refine isComplete_of_neat (k.substitute h.neat) fun mem => ?_
    obtain ⟨c, -, hc⟩ := List.mem_flatMap.1 mem
    split at hc
    · exact h.absolute hc
    · rename_i other
      exact other (List.mem_singleton.1 hc).symm
  · rename_i none
    refine isComplete_of_neat (h.neat.below k) fun mem => ?_
    rcases List.mem_append.1 mem with mem | mem
    · exact h.absolute mem
    · exact none (by simpa using mem)

/-- **What is made of complete selectors is complete.** -/
theorem complete_of_resolve {text : String} {parents : Option (List String)} {found : List String}
    (complete : ∀ p ∈ parents, ∀ s ∈ p, IsComplete s) (h : resolve text parents = .ok found) :
    ∀ s ∈ found, IsComplete s := by
  intro s hs
  unfold resolve at h
  extract_lets selectors at h
  split at h
  · cases h
  · split at h
    · split at h
      · cases h
      · rename_i absolute
        obtain rfl := Except.ok.inj h
        have neat := neat_of_split hs
        rw [← String.ofList_toList (s := s)]
        refine isComplete_of_neat neat fun mem => absolute ?_
        exact List.any_eq_true.2 ⟨s, hs, by simpa using mem⟩
    · obtain rfl := Except.ok.inj h
      obtain ⟨parent, hparent, joined⟩ := List.mem_flatMap.1 hs
      obtain ⟨member, hmember, rfl⟩ := List.mem_map.1 joined
      refine isComplete_join ?_ (neat_of_split hmember)
      cases parents with
      | none => cases hparent
      | some p => exact complete p rfl parent hparent

end Selector
end Stylesheet

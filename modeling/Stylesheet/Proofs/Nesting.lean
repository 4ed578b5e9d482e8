/-
# Nesting around a buffer

Of the nodes around the parent of a node the nesting rules ask only whether there is a
function and whether there is a buffer, and the second only of a plain import, which has
to be at the root anyway.  So a statement with a body is where it may be at the root
exactly when it is in a buffer at the root (`Nesting.check_capture`).
-/

import Stylesheet.Proofs.Node.Written

namespace Stylesheet

namespace Nesting

variable {p : Kind} {outer outer' : List Kind}

/-- A check goes on only after it has found nothing. -/
theorem bind_eq_ok_iff {ε α : Type} {x : Except ε Unit} {f : Unit → Except ε α} {a : α} :
    x >>= f = .ok a ↔ x = .ok () ∧ f () = .ok a := by
  constructor
  · exact bind_eq_ok
  · rintro ⟨rfl, h⟩
    exact h

/-- Two lists of nodes are accepted together if each one is. -/
theorem checkAll_append (around : List Kind) (ns ms : List Node) :
    checkAll around (ns ++ ms) = .ok () ↔
      checkAll around ns = .ok () ∧ checkAll around ms = .ok () := by
  induction ns with
  | nil => simp [checkAll]
  | cons n ns ih => rw [List.cons_append, checkAll, checkAll, bind_eq_ok_iff, bind_eq_ok_iff, ih,
      and_assoc]

/-- Inside anything but the document, only the functions around a parent matter. -/
theorem violation?_isNone (inside : p ≠ .root)
    (functions : outer.contains .function = outer'.contains .function) (k : Kind)
    (hasChildren : Bool) :
    (violation? p outer k hasChildren).isNone = (violation? p outer' k hasChildren).isNone := by
  have around : (p :: outer).contains .function = (p :: outer').contains .function := by
    rw [List.contains_cons, List.contains_cons, functions]
  unfold violation?
  extract_lets in₁ in₂
  have function : in₁ .function = in₂ .function := around
  by_cases content : p = .function && !inFunction k
  · rw [if_pos content, if_pos content]
  · rw [if_neg content, if_neg content]
    cases k with
    | importSheet =>
      show Option.isNone (if in₁ .buffer then _ else _) =
        Option.isNone (if in₂ .buffer then _ else _)
      rw [if_pos inside]
      cases in₁ .buffer <;> cases in₂ .buffer <;> rfl
    | result =>
      show Option.isNone (if in₁ .function then _ else _) =
        Option.isNone (if in₂ .function then _ else _)
      rw [function]
    | _ => rfl

/-- A node is accepted at a place if it breaks no rule there. -/
theorem checkPlace_eq_ok {n : Node} :
    checkPlace (p :: outer) n = .ok () ↔
      (violation? p outer n.kind (!n.children.isEmpty)).isNone := by
  rw [checkPlace]
  cases violation? p outer n.kind (!n.children.isEmpty) with
  | none => exact ⟨fun _ => rfl, fun _ => rfl⟩
  | some rule => constructor <;> intro h <;> cases h

/-- Inside anything but the document, a node is accepted for the functions around it alone. -/
theorem checkPlace_iff (inside : p ≠ .root)
    (functions : outer.contains .function = outer'.contains .function) (n : Node) :
    checkPlace (p :: outer) n = .ok () ↔ checkPlace (p :: outer') n = .ok () := by
  rw [checkPlace_eq_ok, checkPlace_eq_ok, violation?_isNone inside functions]

/-- What fits into a bare tree is no document. -/
theorem kind_ne_root {h : Head} {cs : List Node} (suits : h.suits true cs) : h.kind ≠ .root := by
  rw [Head.suits, Bool.not_true, Bool.false_or, Bool.and_eq_true] at suits
  exact bne_iff_ne.1 suits.1

mutual

/-- A fresh node is accepted with all that is in it for the functions around it alone. -/
theorem checkIn_iff {p : Kind} {outer outer' : List Kind} (inside : p ≠ .root)
    (functions : outer.contains .function = outer'.contains .function) {n : Node}
    (fresh : n.fresh true) :
    checkIn (p :: outer) n = .ok () ↔ checkIn (p :: outer') n = .ok () := by
  match n with
  | .plain info head cs =>
    simp only [Node.fresh, Bool.and_eq_true] at fresh
    obtain ⟨⟨-, suits⟩, inner⟩ := fresh
    rw [checkIn, checkIn, bind_eq_ok_iff, bind_eq_ok_iff, checkPlace_iff inside functions]
    refine and_congr_right fun _ => ?_
    unfold within
    split
    · exact checkAll_iff inside functions inner
    · refine checkAll_iff (kind_ne_root suits) ?_ inner
      rw [List.contains_cons, List.contains_cons, functions]
  | .cond info test cs o =>
    simp only [Node.fresh, Bool.and_eq_true] at fresh
    obtain ⟨⟨-, inner⟩, clause⟩ := fresh
    rw [checkIn, checkIn, bind_eq_ok_iff, bind_eq_ok_iff, bind_eq_ok_iff, bind_eq_ok_iff,
      checkPlace_iff inside functions]
    refine and_congr_right fun _ => and_congr ?_ (checkOption_iff inside functions clause)
    exact checkAll_iff inside functions inner

/-- Fresh nodes are accepted as `checkIn_iff` says. -/
theorem checkAll_iff {p : Kind} {outer outer' : List Kind} (inside : p ≠ .root)
    (functions : outer.contains .function = outer'.contains .function) {ns : List Node}
    (fresh : Node.freshAll true ns) :
    checkAll (p :: outer) ns = .ok () ↔ checkAll (p :: outer') ns = .ok () := by
  match ns with
  | [] => exact Iff.rfl
  | n :: ns =>
    rw [Node.freshAll, Bool.and_eq_true] at fresh
    rw [checkAll, checkAll, bind_eq_ok_iff, bind_eq_ok_iff, checkIn_iff inside functions fresh.1,
      checkAll_iff inside functions fresh.2]

/-- The clause after a node is accepted as `checkIn_iff` says. -/
theorem checkOption_iff {p : Kind} {outer outer' : List Kind} (inside : p ≠ .root)
    (functions : outer.contains .function = outer'.contains .function) {o : Option Node}
    (fresh : Node.freshOption true o) :
    checkOption (p :: outer) o = .ok () ↔ checkOption (p :: outer') o = .ok () := by
  match o with
  | none => exact Iff.rfl
  | some n => exact checkIn_iff inside functions fresh

end

/-- A rule, a query or a condition may be at the root whenever it may be in a buffer there. -/
theorem checkAll_grouping {ns : List Node} (fresh : Node.freshAll true ns)
    (grouping : ns.all Node.grouping) :
    checkAll [.root] ns = .ok () ↔ checkAll [.buffer, .root] ns = .ok () := by
  induction ns with
  | nil => exact Iff.rfl
  | cons n ns ih =>
    rw [Node.freshAll, Bool.and_eq_true] at fresh
    rw [List.all_cons, Bool.and_eq_true] at grouping
    rw [checkAll, checkAll, bind_eq_ok_iff, bind_eq_ok_iff, ih fresh.2 grouping.2]
    refine and_congr_left fun _ => ?_
    match n with
    | .plain info head cs =>
      have inner := fresh.1
      rw [Node.fresh, Bool.and_eq_true] at inner
      have content (k : Kind) (inside : k ≠ .root) :
          checkAll [k, .root] cs = .ok () ↔ checkAll [k, .buffer, .root] cs = .ok () :=
        checkAll_iff inside (by decide) inner.2
      rw [checkIn, checkIn, bind_eq_ok_iff, bind_eq_ok_iff]
      cases head with
      | rule => exact and_congr (iff_of_true rfl rfl) (content .rule nofun)
      | media => exact and_congr (iff_of_true rfl rfl) (content .media nofun)
      | supports => exact and_congr (iff_of_true rfl rfl) (content .supports nofun)
      | _ => cases grouping.1
    | .cond .. => cases grouping.1

/-- **Capturing and flushing some statements at once is right wherever the statements are**:
what is around them may be at the root, and so may a buffer with them inside and a flush. -/
theorem check_capture {before body after : List Node} (fresh : Node.freshAll true body)
    (grouping : body.all Node.grouping) (info info' : Info) (name name' : BufferName)
    (captured : List GroupId) :
    check (.plain {} .root (before ++ (body ++ after))) = .ok () ↔
      check (.plain {} .root (before ++
        ([.plain info (.buffer name) body, .plain info' (.flush name' captured) []] ++
          after))) = .ok () := by
  have document (cs : List Node) :
      check (.plain {} .root cs) = .ok () ↔ checkAll [.root] cs = .ok () := by
    rw [check, checkIn, bind_eq_ok_iff]
    exact and_iff_right rfl
  have captured : checkAll [.root]
      [.plain info (.buffer name) body, .plain info' (.flush name' captured) []] = .ok () ↔
        checkAll [.buffer, .root] body = .ok () := by
    rw [checkAll, bind_eq_ok_iff, checkIn, bind_eq_ok_iff]
    exact ⟨fun h => h.1.2, fun h => ⟨⟨rfl, h⟩, rfl⟩⟩
  rw [document, document, checkAll_append, checkAll_append, checkAll_append, checkAll_append,
    captured, checkAll_grouping fresh grouping]

end Nesting
end Stylesheet

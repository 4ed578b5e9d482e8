/-
# Stores with their scopes renamed

A `Renaming` gives scopes and groups other numbers.  A store is renamed into another
(`Scopes.Renamed`) if every scope has in the other store what it has in the first, the
scopes and groups in it renamed.  The other store may have more scopes, with nothing in
them, between the scopes around a scope; and of the entries of buffers with a free name
nothing is said.

What is found in a scope is then found in the scope that it is renamed to
(`Scopes.Renamed.find?_eq`), and the operations that change the two stores in the same way
leave the one renamed into the other.  One more scope of the other store stands for a scope
of the first when something is looked up or a scope is made inside it: together they are
the `site` of a renaming.
-/

import Stylesheet.Proofs.Node.Renamed
import Stylesheet.Proofs.Scope.Frame

namespace Stylesheet

/-- How the scopes and the groups of one world are numbered in another. -/
structure Renaming where
  /-- The scope that a scope is renamed to. -/
  scope : Nat → Nat
  /-- The group that a group is renamed to. -/
  group : GroupId → GroupId
  /-- The scopes that only the other world has. -/
  extra : Nat → Bool
  /-- A scope and the one that stands for it. -/
  site : Nat × Nat
  /-- The names of buffers of which nothing is said. -/
  free : String → Bool
  /-- Scopes are told apart. -/
  injective : Function.Injective scope
  /-- A scope that only the other world has is no renamed one. -/
  not_extra : ∀ i, extra (scope i) = false

namespace Renaming

/-- A definition in the scope that its scope is renamed to. -/
def definition (R : Renaming) (d : Definition) : Definition :=
  { d with scope := R.scope d.scope }

/-- A scope and one in which the same is found. -/
def Pairs (R : Renaming) (i i' : Nat) : Prop :=
  i' = R.scope i ∨ (i, i') = R.site

end Renaming

namespace Scope

/-- A scope with what is in it renamed. -/
structure Renamed (R : Renaming) (a b : Scope) : Prop where
  vars : b.vars = a.vars
  selector : b.selector = a.selector
  owns : b.ownsBuffers = a.ownsBuffers
  mixins : ∀ name, b.mixins.get? name = (a.mixins.get? name).map R.definition
  functions : ∀ name, b.functions.get? name = (a.functions.get? name).map R.definition
  buffers : ∀ name, R.free name = false →
    b.buffers.get? name = (a.buffers.get? name).map (List.map R.group)
  /-- The definitions are made of what has not been evaluated. -/
  written : ∀ name d, a.mixins.get? name = some d ∨ a.functions.get? name = some d →
    Node.freshAll true d.body

/-- A scope with nothing in it, unless under a free name. -/
structure Blank (free : String → Bool) (b : Scope) : Prop where
  vars : b.vars = []
  selector : b.selector = none
  owns : b.ownsBuffers = false
  mixins : b.mixins = []
  functions : b.functions = []
  buffers : ∀ name, free name = false → b.buffers.get? name = none

/-- The second scope is the first one, but for the entries of free names. -/
structure SameBut (free : String → Bool) (a b : Scope) : Prop where
  around : b.ancestors = a.ancestors ∧ b.options = a.options ∧ b.ownsBuffers = a.ownsBuffers
  vars : b.vars = a.vars
  selector : b.selector = a.selector
  mixins : b.mixins = a.mixins
  functions : b.functions = a.functions
  buffers : ∀ name, free name = false → b.buffers.get? name = a.buffers.get? name

variable {R : Renaming} {free : String → Bool} {a a' b b' : Scope}

/-- A scope is the same as itself, whatever names are free. -/
theorem SameBut.refl (free : String → Bool) (a : Scope) : SameBut free a a where
  around := ⟨rfl, rfl, rfl⟩
  vars := rfl
  selector := rfl
  mixins := rfl
  functions := rfl
  buffers _ _ := rfl

/-- What is the same but for free names twice is so at once. -/
theorem SameBut.trans (h : SameBut free a a') (k : SameBut free a' b) : SameBut free a b where
  around := ⟨k.around.1.trans h.around.1, k.around.2.1.trans h.around.2.1,
    k.around.2.2.trans h.around.2.2⟩
  vars := k.vars.trans h.vars
  selector := k.selector.trans h.selector
  mixins := k.mixins.trans h.mixins
  functions := k.functions.trans h.functions
  buffers name e := (k.buffers name e).trans (h.buffers name e)

/-- An entry of a free name may be anything. -/
theorem SameBut.setBuffer {name : String} (e : free name = true) (a : Scope)
    (groups : List GroupId) : SameBut free a { a with buffers := a.buffers.set name groups } :=
  { SameBut.refl free a with
    buffers := fun other ne => Table.get?_set_of_ne (by rintro rfl; simp [e] at ne) _ _ }

/-- Entries of free names do not matter to a renaming. -/
theorem Renamed.of_sameBut (h : a.Renamed R b) (k : SameBut R.free a a')
    (k' : SameBut R.free b b') : a'.Renamed R b' where
  vars := by rw [k'.vars, h.vars, k.vars]
  selector := by rw [k'.selector, h.selector, k.selector]
  owns := by rw [k'.around.2.2, h.owns, k.around.2.2]
  mixins name := by rw [k'.mixins, h.mixins, k.mixins]
  functions name := by rw [k'.functions, h.functions, k.functions]
  buffers name e := by rw [k'.buffers name e, h.buffers name e, k.buffers name e]
  written name d := by rw [k.mixins, k.functions]; exact h.written name d

/-- A scope without anything but free names stays one. -/
theorem Blank.of_sameBut (h : b.Blank free) (k : SameBut free b b') : b'.Blank free where
  vars := by rw [k.vars, h.vars]
  selector := by rw [k.selector, h.selector]
  owns := by rw [k.around.2.2, h.owns]
  mixins := by rw [k.mixins, h.mixins]
  functions := by rw [k.functions, h.functions]
  buffers name e := by rw [k.buffers name e, h.buffers name e]

/-- New scopes of the same kind. -/
theorem renamed_new (R : Renaming) (around around' : List ScopeId) (options options' : Options)
    (owns : Bool) :
    Renamed R { ancestors := around, options, ownsBuffers := owns }
      { ancestors := around', options := options', ownsBuffers := owns } where
  vars := rfl
  selector := rfl
  owns := rfl
  mixins _ := rfl
  functions _ := rfl
  buffers _ _ := rfl
  written _ _ h := by rcases h with h | h <;> cases h

end Scope

namespace Scopes

/-- The second store has the same scopes in the same places. -/
structure SameShape (s t : Scopes) : Prop where
  size : t.all.size = s.all.size
  around : ∀ i, (t.get i).ancestors = (s.get i).ancestors ∧
    (t.get i).options = (s.get i).options

/-- A store renamed into another. -/
structure Renamed (R : Renaming) (s s' : Scopes) : Prop where
  /-- New scopes are renamed to new scopes. -/
  size : ∀ m, R.scope (s.all.size + m) = s'.all.size + m
  site : R.site.1 < s.all.size ∧ R.site.2 < s'.all.size
  /-- Between the renamed scopes around a scope there are scopes that only the other store
  has. -/
  chain : ∀ i i', R.Pairs i i' →
    ((s'.chain i').filter fun j => !R.extra j) = (s.chain i).map R.scope
  /-- The outermost scope is renamed. -/
  root : ∀ i i', R.Pairs i i' → R.extra (s'.root i') = false
  options : ∀ i i', R.Pairs i i' → (s'.get i').options = (s.get i).options
  scope : ∀ i, (s.get i).Renamed R (s'.get (R.scope i))
  extra : ∀ j, R.extra j → j < s'.all.size ∧ (s'.get j).Blank R.free

/-- A change of one scope that keeps what is around it keeps the shape of the store. -/
theorem sameShape_modify (s : Scopes) (i : ScopeId) {f : Scope → Scope}
    (h : ∀ a, (f a).ancestors = a.ancestors ∧ (f a).options = a.options) :
    s.SameShape (s.modify i f) where
  size := s.size_modify i f
  around j := ⟨get_modify_field (·.ancestors) (h _).1 j, get_modify_field (·.options) (h _).2 j⟩

variable {R : Renaming} {s s' t t' : Scopes} {i i' : Nat}

/-- Stores of the same shape have the same chains. -/
theorem SameShape.chain_eq (h : s.SameShape t) (i : ScopeId) : t.chain i = s.chain i := by
  rw [chain, chain, (h.around i).1]

/-- Stores of the same shape have the same roots. -/
theorem SameShape.root_eq (h : s.SameShape t) (i : ScopeId) : t.root i = s.root i := by
  rw [root, root, (h.around i).1]

namespace Renamed

/-- Stores of the same shape are renamed if their scopes are. -/
theorem of_shape (h : s.Renamed R s') (k : s.SameShape t) (k' : s'.SameShape t')
    (scope : ∀ i, (t.get i).Renamed R (t'.get (R.scope i)))
    (extra : ∀ j, R.extra j → (t'.get j).Blank R.free) : t.Renamed R t' where
  size m := by rw [k.size, k'.size, h.size]
  site := by rw [k.size, k'.size]; exact h.site
  chain i i' pair := by rw [k.chain_eq, k'.chain_eq, h.chain i i' pair]
  root i i' pair := by rw [k'.root_eq, h.root i i' pair]
  options i i' pair := by rw [(k.around i).2, (k'.around i').2, h.options i i' pair]
  scope := scope
  extra j e := by rw [k'.size]; exact ⟨(h.extra j e).1, extra j e⟩

/-- What is no scope is renamed to none. -/
theorem size_le (h : s.Renamed R s') (hi : s.all.size ≤ i) : s'.all.size ≤ R.scope i := by
  obtain ⟨m, rfl⟩ := Nat.exists_eq_add_of_le hi
  rw [h.size]
  exact Nat.le_add_right _ _

/-- What is a scope is renamed to one. -/
theorem lt_size (h : s.Renamed R s') (hi : i < s.all.size) : R.scope i < s'.all.size := by
  by_contra out
  obtain ⟨m, e⟩ := Nat.exists_eq_add_of_le (Nat.le_of_not_lt out)
  rw [← h.size m] at e
  have same := R.injective e
  omega

/-! ### Changes -/

/-- The same change of a scope and of the one it is renamed to. -/
theorem modify (h : s.Renamed R s') (i : Nat) {f g : Scope → Scope}
    (around : ∀ a, (f a).ancestors = a.ancestors ∧ (f a).options = a.options)
    (around' : ∀ a, (g a).ancestors = a.ancestors ∧ (g a).options = a.options)
    (keeps : ∀ a b, a.Renamed R b → (f a).Renamed R (g b)) :
    (s.modify i f).Renamed R (s'.modify (R.scope i) g) := by
  refine h.of_shape (s.sameShape_modify i around) (s'.sameShape_modify _ around') (fun j => ?_)
    fun j e => ?_
  · rcases Nat.lt_or_ge i s.all.size with hi | hi
    · by_cases same : j = i
      · subst same
        rw [get_modify_self hi, get_modify_self (h.lt_size hi)]
        exact keeps _ _ (h.scope j)
      · rw [get_modify_of_ne same, get_modify_of_ne (fun e => same (R.injective e))]
        exact h.scope j
    · rw [modify_of_size_le hi, modify_of_size_le (h.size_le hi)]
      exact h.scope j
  · have other : j ≠ R.scope i := by
      rintro rfl
      rw [R.not_extra] at e
      cases e
    rw [get_modify_of_ne other]
    exact (h.extra j e).2

/-- A variable is set on both sides. -/
theorem setLocalVar (h : s.Renamed R s') (i : Nat) (name : String) (v : Value) :
    (s.setLocalVar i name v).Renamed R (s'.setLocalVar (R.scope i) name v) :=
  h.modify i (fun _ => ⟨rfl, rfl⟩) (fun _ => ⟨rfl, rfl⟩) fun _ _ k =>
    { k with vars := by rw [k.vars] }

/-- Selectors are set on both sides. -/
theorem setSelector (h : s.Renamed R s') (i : Nat) (selector : Option (List String)) :
    (s.setSelector i selector).Renamed R (s'.setSelector (R.scope i) selector) :=
  h.modify i (fun _ => ⟨rfl, rfl⟩) (fun _ => ⟨rfl, rfl⟩) fun _ _ k => { k with selector := rfl }

/-- Tables that agree on some names agree after the same change of both. -/
theorem get?_set_map {α β : Type} {t : Table α} {t' : Table β} {m : α → β}
    {p : String → Prop} (h : ∀ name, p name → t'.get? name = (t.get? name).map m)
    (name : String) (v : α) (other : String) (hp : p other) :
    (t'.set name (m v)).get? other = ((t.set name v).get? other).map m := by
  rw [Table.get?_set, Table.get?_set, h other hp]
  split <;> rfl

/-- A mixin is defined on both sides. -/
theorem setMixin (h : s.Renamed R s') (i : Nat) (name : String) (d : Definition)
    (fresh : Node.freshAll true d.body) :
    (s.setMixin i name d).Renamed R (s'.setMixin (R.scope i) name (R.definition d)) :=
  h.modify i (fun _ => ⟨rfl, rfl⟩) (fun _ => ⟨rfl, rfl⟩) fun _ _ k =>
    { k with
      mixins := fun other => get?_set_map (p := fun _ => True) (fun n _ => k.mixins n) _ d other
        trivial
      written := fun other e he => by
        rw [Table.get?_set] at he
        split at he
        · rcases he with he | he
          · cases he
            exact fresh
          · exact k.written other e (.inr he)
        · exact k.written other e he }

/-- A function is defined on both sides. -/
theorem setFunction (h : s.Renamed R s') (i : Nat) (name : String) (d : Definition)
    (fresh : Node.freshAll true d.body) :
    (s.setFunction i name d).Renamed R (s'.setFunction (R.scope i) name (R.definition d)) :=
  h.modify i (fun _ => ⟨rfl, rfl⟩) (fun _ => ⟨rfl, rfl⟩) fun _ _ k =>
    { k with
      functions := fun other => get?_set_map (p := fun _ => True) (fun n _ => k.functions n) _ d
        other trivial
      written := fun other e he => by
        rw [Table.get?_set] at he
        split at he
        · rcases he with he | he
          · exact k.written other e (.inl he)
          · cases he
            exact fresh
        · exact k.written other e he }

/-- An entry set to groups and to what they are renamed to. -/
theorem setBuffer (h : s.Renamed R s') (i : Nat) (name : String)
    {f g : Scope → List GroupId}
    (same : ∀ a b, a.Renamed R b → g b = (f a).map R.group) :
    (s.modify i fun a => { a with buffers := a.buffers.set name (f a) }).Renamed R
      (s'.modify (R.scope i) fun b => { b with buffers := b.buffers.set name (g b) }) :=
  h.modify i (fun _ => ⟨rfl, rfl⟩) (fun _ => ⟨rfl, rfl⟩) fun a b k =>
    { k with
      buffers := fun other e => by
        rw [same a b k]
        exact get?_set_map k.buffers name (f a) other e }

/-- New scopes inside a scope and one in which the same is found. -/
theorem add (h : s.Renamed R s') {p p' : Nat} (pair : R.Pairs p p') (owns : Bool) :
    (s.add (some p) none (some owns)).2.Renamed R
      (s'.add (some p') none (some owns)).2 := by
  have first : R.scope s.all.size = s'.all.size := h.size 0
  -- the new scopes are renamed to each other, and other pairs are as they were
  have news : ∀ i i', R.Pairs i i' → (i = s.all.size ∧ i' = s'.all.size) ∨
      (i ≠ s.all.size ∧ i' ≠ s'.all.size) := by
    rintro i i' (rfl | site)
    · by_cases e : i = s.all.size
      · exact .inl ⟨e, e ▸ first⟩
      · refine .inr ⟨e, fun e' => e (R.injective ?_)⟩
        rw [e', first]
    · have inside := h.site
      rw [← site] at inside
      exact .inr ⟨Nat.ne_of_lt inside.1, Nat.ne_of_lt inside.2⟩
  have old {s : Scopes} {p : Nat} {j : Nat} (hj : j ≠ s.all.size) :
      (s.add (some p) none (some owns)).2.get j = s.get j := by
    rcases Nat.lt_or_gt_of_ne hj with lt | gt
    · exact get_add_of_lt lt _ _ _
    · rw [get_of_size_le (Nat.le_of_lt gt), get_of_size_le (by rw [size_add]; exact gt)]
  have new : R.extra s'.all.size = false := by
    rw [← first]
    exact R.not_extra _
  constructor
  · intro m
    have later := h.size (1 + m)
    rw [size_add, size_add]
    rw [← Nat.add_assoc, ← Nat.add_assoc] at later
    exact later
  · rw [size_add, size_add]
    exact ⟨Nat.lt_succ_of_lt h.site.1, Nat.lt_succ_of_lt h.site.2⟩
  · intro i i' both
    rcases news i i' both with ⟨rfl, rfl⟩ | ⟨hi, hi'⟩
    · rw [chain_add, chain_add, List.filter_cons_of_pos (by simp [new]), h.chain p p' pair,
        List.map_cons, first]
    · rw [Scopes.chain, Scopes.chain, old hi, old hi']
      exact h.chain i i' both
  · intro i i' both
    rcases news i i' both with ⟨rfl, rfl⟩ | ⟨hi, hi'⟩
    · rw [Scopes.root, get_add_self, List.getLastD_cons]
      exact h.root p p' pair
    · rw [Scopes.root, old hi']
      exact h.root i i' both
  · intro i i' both
    rcases news i i' both with ⟨rfl, rfl⟩ | ⟨hi, hi'⟩
    · rw [get_add_self, get_add_self]
      exact h.options p p' pair
    · rw [old hi, old hi']
      exact h.options i i' both
  · intro i
    rcases news i _ (.inl rfl) with ⟨rfl, e⟩ | ⟨hi, hi'⟩
    · rw [e, get_add_self, get_add_self]
      exact Scope.renamed_new R ..
    · rw [old hi, old hi']
      exact h.scope i
  · intro j e
    obtain ⟨lt, blank⟩ := h.extra j e
    rw [size_add, get_add_of_lt lt]
    exact ⟨Nat.lt_succ_of_lt lt, blank⟩

/-! ### What is found -/

/-- The nearest scope with a property is renamed to the nearest. -/
theorem nearest?_eq (h : s.Renamed R s') (pair : R.Pairs i i') {f g : Scope → Bool}
    (same : ∀ a b, a.Renamed R b → g b = f a) (blank : ∀ b, b.Blank R.free → g b = false) :
    s'.nearest? i' g = (s.nearest? i f).map R.scope := by
  have passed : s'.nearest? i' g =
      ((s'.chain i').filter fun j => !R.extra j).find? fun j => g (s'.get j) := by
    rw [List.find?_filter]
    refine List.find?_congr fun j _ => ?_
    cases e : R.extra j with
    | true => simp [blank _ (h.extra j e).2]
    | false => simp
  rw [passed, h.chain i i' pair, List.find?_map]
  refine congrArg _ (List.find?_congr fun j _ => ?_)
  exact same _ _ (h.scope j)

/-- **What is found is renamed with the scope that it is found in.** -/
theorem find?_eq (h : s.Renamed R s') (pair : R.Pairs i i') {α β : Type} {m : α → β}
    {f : Scope → Option α} {g : Scope → Option β}
    (same : ∀ a b, a.Renamed R b → g b = (f a).map m)
    (blank : ∀ b, b.Blank R.free → g b = none) :
    s'.find? i' g = (s.find? i f).map m := by
  have nearest : s'.nearest? i' (fun b => (g b).isSome) =
      (s.nearest? i fun a => (f a).isSome).map R.scope :=
    h.nearest?_eq pair (fun a b k => by rw [same a b k, Option.isSome_map])
      fun b k => by rw [blank b k]; rfl
  have found : s'.find? i' g = (s'.nearest? i' fun b => (g b).isSome).bind
      fun j => g (s'.get j) :=
    findSome?_eq_find?_bind _ _
  have found' : s.find? i f = (s.nearest? i fun a => (f a).isSome).bind fun j => f (s.get j) :=
    findSome?_eq_find?_bind _ _
  rw [found, found', nearest, Option.bind_map, Option.map_bind]
  refine congrArg _ (funext fun j => ?_)
  exact same _ _ (h.scope j)

/-- Variables have the same values on both sides. -/
theorem var?_eq (h : s.Renamed R s') (pair : R.Pairs i i') (name : String) :
    s'.var? i' name = s.var? i name := by
  have found := h.find?_eq pair (m := id)
    (f := fun a => a.vars.get? (Name.normalize name))
    (g := fun b => b.vars.get? (Name.normalize name))
    (fun a b k => by rw [k.vars, Option.map_id]; rfl) fun b k => by rw [k.vars]; rfl
  rw [Option.map_id] at found
  exact found

/-- Mixins that are found are renamed. -/
theorem mixin?_eq (h : s.Renamed R s') (pair : R.Pairs i i') (name : String) :
    s'.mixin? i' name = (s.mixin? i name).map R.definition :=
  h.find?_eq pair (fun _ _ k => k.mixins _) fun b k => by rw [k.mixins]; rfl

/-- Functions that are found are renamed. -/
theorem function?_eq (h : s.Renamed R s') (pair : R.Pairs i i') (name : String) :
    s'.function? i' name = (s.function? i name).map R.definition :=
  h.find?_eq pair (fun _ _ k => k.functions _) fun b k => by rw [k.functions]; rfl

/-- Selectors are the same on both sides. -/
theorem selector?_eq (h : s.Renamed R s') (pair : R.Pairs i i') :
    s'.selector? i' = s.selector? i := by
  have found := h.find?_eq pair (m := id) (f := (·.selector)) (g := (·.selector))
    (fun a b k => by rw [k.selector, Option.map_id]; rfl) fun b k => k.selector
  rw [Option.map_id] at found
  exact found

/-- What is found under a name that is not free is renamed. -/
theorem buffer?_eq (h : s.Renamed R s') (pair : R.Pairs i i') {name : String}
    (e : R.free name = false) :
    s'.buffer? i' name = (s.buffer? i name).map (List.map R.group) :=
  h.find?_eq pair (fun _ _ k => k.buffers name e) fun _ k => k.buffers name e

/-- The holder of a name that is not free is renamed. -/
theorem bufferHolder?_eq (h : s.Renamed R s') (pair : R.Pairs i i') {name : String}
    (e : R.free name = false) :
    s'.bufferHolder? i' name = (s.bufferHolder? i name).map R.scope :=
  h.nearest?_eq pair (fun a b k => by rw [k.buffers name e, Option.isSome_map])
    fun b k => by rw [k.buffers name e]; rfl

/-- The scope that a variable is assigned in is renamed. -/
theorem holder_eq (h : s.Renamed R s') (i : Nat) (name : String) :
    s'.holder (R.scope i) name = R.scope (s.holder i name) := by
  have nearest := h.nearest?_eq (.inl rfl : R.Pairs i _)
    (f := fun a => (a.vars.get? (Name.normalize name)).isSome)
    (g := fun b => (b.vars.get? (Name.normalize name)).isSome)
    (fun a b k => by rw [k.vars]) fun b k => by rw [k.vars]; rfl
  rw [holder, holder, nearest, Option.getD_map]

/-- The root is renamed to the root. -/
theorem root_eq (h : s.Renamed R s') (pair : R.Pairs i i') :
    s'.root i' = R.scope (s.root i) := by
  have last (s : Scopes) (i : Nat) : (s.chain i).getLast? = some (s.root i) := by
    rw [Scopes.chain, List.getLast?_cons, Scopes.root, List.getLastD_eq_getLast?]
  have top : s'.chain i' ≠ [] := List.cons_ne_nil _ _
  have outermost : (s'.chain i').getLast top = s'.root i' :=
    Option.some.inj ((List.getLast?_eq_some_getLast top).symm.trans (last s' i'))
  have kept : (!R.extra ((s'.chain i').getLast top)) = true := by
    rw [outermost, h.root i i' pair]
    rfl
  have same := (List.getLast_filter_of_pos (p := fun j => !R.extra j) top kept).trans outermost
  have mapped : ((s'.chain i').filter fun j => !R.extra j).getLast? =
      some (R.scope (s.root i)) := by
    rw [h.chain i i' pair, List.getLast?_map, last s i]
    rfl
  have some' : ((s'.chain i').filter fun j => !R.extra j) ≠ [] := fun e => by
    rw [e] at mapped
    cases mapped
  have whole := (List.getLast?_eq_some_getLast some').symm.trans mapped
  exact same.symm.trans (Option.some.inj whole)

/-- Owners are renamed to owners. -/
theorem owner_eq (h : s.Renamed R s') (pair : R.Pairs i i') :
    s'.owner i' = R.scope (s.owner i) := by
  have nearest := h.nearest?_eq pair (f := (·.ownsBuffers)) (g := (·.ownsBuffers))
    (fun a b k => k.owns) fun b k => k.owns
  rw [owner, owner, nearest, h.root_eq pair, Option.getD_map]

/-! ### Entries -/

/-- A variable is assigned on both sides, wherever it is. -/
theorem setVar (h : s.Renamed R s') (i : Nat) (name : String) (v : Value) :
    (s.setVar i name v).Renamed R (s'.setVar (R.scope i) name v) := by
  rw [Scopes.setVar, Scopes.setVar, h.holder_eq]
  exact h.setLocalVar _ name v

/-- A name that is not free is declared on both sides. -/
theorem declareBuffer (h : s.Renamed R s') (i : Nat) {name : String} (e : R.free name = false) :
    (s.declareBuffer i name).Renamed R (s'.declareBuffer (R.scope i) name) := by
  rw [Scopes.declareBuffer, Scopes.declareBuffer, h.bufferHolder?_eq (.inl rfl) e]
  cases s.bufferHolder? i name with
  | none => exact h.setBuffer i name fun _ _ _ => rfl
  | some k => exact h

/-- A group is put into the entry of a name that is not free on both sides, under its number
there. -/
theorem appendBuffer (h : s.Renamed R s') (i : Nat) {name : String} (e : R.free name = false)
    (g : GroupId) :
    (s.appendBuffer i name g).Renamed R (s'.appendBuffer (R.scope i) name (R.group g)) := by
  have declared := h.declareBuffer i e
  unfold Scopes.appendBuffer
  extract_lets t k t' k'
  have holder : k' = R.scope k := by
    show (Scopes.bufferHolder? _ _ _).getD _ = R.scope (Option.getD _ _)
    rw [declared.bufferHolder?_eq (.inl rfl) e, Option.getD_map]
  rw [holder]
  refine declared.setBuffer k name fun a b same => ?_
  rw [same.buffers name e, List.map_append]
  cases a.buffers.get? name <;> rfl

end Renamed

/-- The second store is the first one, but for the entries of free names. -/
structure SameBut (free : String → Bool) (s t : Scopes) : Prop where
  size : t.all.size = s.all.size
  scope : ∀ i, (s.get i).SameBut free (t.get i)

variable {free : String → Bool} {name : String}

/-- Stores that are the same but for free names twice are so at once. -/
theorem SameBut.trans {u : Scopes} (h : s.SameBut free t) (k : t.SameBut free u) :
    s.SameBut free u :=
  ⟨k.size.trans h.size, fun i => (h.scope i).trans (k.scope i)⟩

/-- A change of the entry of a free name. -/
theorem sameBut_setBuffer (e : free name = true) (s : Scopes) (i : Nat)
    (f : Scope → List GroupId) :
    s.SameBut free (s.modify i fun a => { a with buffers := a.buffers.set name (f a) }) where
  size := s.size_modify i _
  scope j := by
    rcases s.get_modify i _ j with same | ⟨rfl, new⟩
    · rw [same]
      exact .refl free _
    · rw [new]
      exact .setBuffer e _ _

/-- A free name is declared. -/
theorem sameBut_declareBuffer (e : free name = true) (s : Scopes) (i : ScopeId) :
    s.SameBut free (s.declareBuffer i name) := by
  unfold declareBuffer
  split
  · exact ⟨rfl, fun _ => .refl free _⟩
  · exact sameBut_setBuffer e s i fun _ => []

/-- A group is put into the entry of a free name. -/
theorem sameBut_appendBuffer (e : free name = true) (s : Scopes) (i : ScopeId) (g : GroupId) :
    s.SameBut free (s.appendBuffer i name g) :=
  (sameBut_declareBuffer e s i).trans (sameBut_setBuffer e _ _ _)

/-- What is done to entries of free names does not matter. -/
theorem Renamed.of_sameBut (h : s.Renamed R s') (k : s.SameBut R.free t)
    (k' : s'.SameBut R.free t') : t.Renamed R t' :=
  h.of_shape ⟨k.size, fun i => ⟨(k.scope i).around.1, (k.scope i).around.2.1⟩⟩
    ⟨k'.size, fun i => ⟨(k'.scope i).around.1, (k'.scope i).around.2.1⟩⟩
    (fun i => (h.scope i).of_sameBut (k.scope i) (k'.scope _))
    fun j e => (h.extra j e).2.of_sameBut (k'.scope j)

end Scopes
end Stylesheet

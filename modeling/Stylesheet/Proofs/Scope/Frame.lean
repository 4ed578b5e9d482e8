/-
# What a change of the scopes leaves alone

`Scopes.Frame i g s s'` says that the change from `s` to `s'` is one that an evaluation
in the scope `i` may make.  Scopes apart from `i` and the scopes around it stay as they
are.  In those on the chain variables may get other values and entries of buffers may
grow, but nothing gets a new name, except for what the *gains* `g` allow to the scope `i`
itself and, for a new entry of a buffer, to the owner of its entries.

Frames compose (`Scopes.Frame.trans`), every operation on scopes has one, and what
happens inside a new scope is framed by the scope it was made in (`Scopes.Frame.inside`).
-/

import Stylesheet.Proofs.Scope.Buffers

namespace Stylesheet

/-- What a scope may have after a change that it did not have before. -/
structure Gains where
  /-- A variable. -/
  var : String → Prop := fun _ => False
  /-- Another mixin of a name. -/
  mixin : String → Prop := fun _ => False
  /-- Another function of a name. -/
  function : String → Prop := fun _ => False
  /-- Other selectors. -/
  selector : Prop := False
  /-- A new entry of a buffer. -/
  buffer : Prop := False

namespace Gains

/-- Nothing at all. -/
def none : Gains := {}

/-- Nothing but entries of buffers. -/
def buffers : Gains where
  buffer := True

/-- Anything. -/
def any : Gains where
  var _ := True
  mixin _ := True
  function _ := True
  selector := True
  buffer := True

instance : LE Gains where
  le g h := (∀ x, g.var x → h.var x) ∧ (∀ x, g.mixin x → h.mixin x) ∧
    (∀ x, g.function x → h.function x) ∧ (g.selector → h.selector) ∧ (g.buffer → h.buffer)

/-- Nothing is no more than anything. -/
theorem none_le (g : Gains) : none ≤ g :=
  ⟨fun _ => False.elim, fun _ => False.elim, fun _ => False.elim, False.elim, False.elim⟩

/-- Anything is no less than whatever is gained. -/
theorem le_any (g : Gains) : g ≤ any :=
  ⟨fun _ _ => trivial, fun _ _ => trivial, fun _ _ => trivial, fun _ => trivial,
    fun _ => trivial⟩

/-- What is left of gains that the scope `i` may have for the scope `j`: all of it if the
two are the same, and entries of buffers if `j` is the owner of those of `i`. -/
def here (g : Gains) (s : Scopes) (i j : ScopeId) : Gains where
  var x := j = i ∧ g.var x
  mixin x := j = i ∧ g.mixin x
  function x := j = i ∧ g.function x
  selector := j = i ∧ g.selector
  buffer := j = s.owner i ∧ g.buffer

/-- What may be gained around grows with what may be gained. -/
theorem here_mono {g h : Gains} (l : g ≤ h) (s : Scopes) (i j : ScopeId) :
    g.here s i j ≤ h.here s i j :=
  ⟨fun x => And.imp_right (l.1 x), fun x => And.imp_right (l.2.1 x),
    fun x => And.imp_right (l.2.2.1 x), And.imp_right l.2.2.2.1, And.imp_right l.2.2.2.2⟩

/-- Where nothing is gained, nothing is gained around. -/
theorem here_none_le (s : Scopes) (i j : ScopeId) (g : Gains) : none.here s i j ≤ g :=
  ⟨fun _ h => h.2.elim, fun _ h => h.2.elim, fun _ h => h.2.elim, fun h => h.2.elim,
    fun h => h.2.elim⟩

end Gains

/-- A scope has become another one and has gained at most `g`. -/
structure Scope.Keeps (g : Gains) (a a' : Scope) : Prop where
  ancestors : a'.ancestors = a.ancestors
  options : a'.options = a.options
  ownsBuffers : a'.ownsBuffers = a.ownsBuffers
  selector : ¬ g.selector → a'.selector = a.selector
  /-- A variable may get another value, but is not lost. -/
  var_isSome : ∀ x, (a.vars.get? x).isSome → (a'.vars.get? x).isSome
  newVars : ∀ x, ¬ g.var x → a.vars.get? x = none → a'.vars.get? x = none
  mixins : ∀ x, ¬ g.mixin x → a'.mixins.get? x = a.mixins.get? x
  functions : ∀ x, ¬ g.function x → a'.functions.get? x = a.functions.get? x
  /-- Groups are added at the end of an entry. -/
  buffers : ∀ x l, a.buffers.get? x = some l → ∃ l', a'.buffers.get? x = some l' ∧ l <+: l'
  newBuffers : ¬ g.buffer → ∀ x, a.buffers.get? x = none → a'.buffers.get? x = none

namespace Scope.Keeps

variable {g h : Gains} {a b c : Scope}

/-- A scope that is left alone keeps what it has. -/
theorem refl (g : Gains) (a : Scope) : Keeps g a a where
  ancestors := rfl
  options := rfl
  ownsBuffers := rfl
  selector _ := rfl
  var_isSome _ := id
  newVars _ _ := id
  mixins _ _ := rfl
  functions _ _ := rfl
  buffers _ l e := ⟨l, e, List.prefix_rfl⟩
  newBuffers _ _ := id

/-- What is kept twice is kept. -/
theorem trans (k : Keeps g a b) (l : Keeps g b c) : Keeps g a c where
  ancestors := l.ancestors.trans k.ancestors
  options := l.options.trans k.options
  ownsBuffers := l.ownsBuffers.trans k.ownsBuffers
  selector n := (l.selector n).trans (k.selector n)
  var_isSome x e := l.var_isSome x (k.var_isSome x e)
  newVars x n e := l.newVars x n (k.newVars x n e)
  mixins x n := (l.mixins x n).trans (k.mixins x n)
  functions x n := (l.functions x n).trans (k.functions x n)
  buffers x m e := by
    obtain ⟨m', e', p⟩ := k.buffers x m e
    obtain ⟨m'', e'', q⟩ := l.buffers x m' e'
    exact ⟨m'', e'', p.trans q⟩
  newBuffers n x e := l.newBuffers n x (k.newBuffers n x e)

/-- What is kept when little is gained is kept when more may be. -/
theorem mono (l : g ≤ h) (k : Keeps g a b) : Keeps h a b where
  ancestors := k.ancestors
  options := k.options
  ownsBuffers := k.ownsBuffers
  selector n := k.selector (mt l.2.2.2.1 n)
  var_isSome := k.var_isSome
  newVars x n := k.newVars x (mt (l.1 x) n)
  mixins x n := k.mixins x (mt (l.2.1 x) n)
  functions x n := k.functions x (mt (l.2.2.1 x) n)
  buffers := k.buffers
  newBuffers n := k.newBuffers (mt l.2.2.2.2 n)

/-- A variable that may be gained, or is there, may be set. -/
theorem setVar (a : Scope) {name : String} (v : Value)
    (there : g.var name ∨ (a.vars.get? name).isSome) :
    Keeps g a { a with vars := a.vars.set name v } where
  __ := refl g a
  var_isSome x e := by
    rw [Table.get?_set]
    split
    · rfl
    · exact e
  newVars x n e := by
    rw [Table.get?_set, if_neg]
    · exact e
    · rintro rfl
      rcases there with h | h
      · exact n h
      · rw [e] at h
        cases h

/-- A mixin that may be gained may be set. -/
theorem setMixin (a : Scope) {name : String} (d : Definition) (allowed : g.mixin name) :
    Keeps g a { a with mixins := a.mixins.set name d } where
  __ := refl g a
  mixins x n := Table.get?_set_of_ne (by rintro rfl; exact n allowed) _ d

/-- A function that may be gained may be set. -/
theorem setFunction (a : Scope) {name : String} (d : Definition) (allowed : g.function name) :
    Keeps g a { a with functions := a.functions.set name d } where
  __ := refl g a
  functions x n := Table.get?_set_of_ne (by rintro rfl; exact n allowed) _ d

/-- Selectors may be set where they may be gained. -/
theorem setSelector (a : Scope) (selector : Option (List String)) (allowed : g.selector) :
    Keeps g a { a with selector } where
  __ := refl g a
  selector n := (n allowed).elim

/-- An entry is extended that is there or allowed. -/
theorem setBuffer (a : Scope) {name : String} (groups : List GroupId)
    (there : g.buffer ∨ (a.buffers.get? name).isSome)
    (grows : (a.buffers.get? name).getD [] <+: groups) :
    Keeps g a { a with buffers := a.buffers.set name groups } where
  __ := refl g a
  buffers x l e := by
    by_cases h : x = name
    · subst h
      rw [e] at grows
      exact ⟨groups, Table.get?_set_self _ x groups, grows⟩
    · exact ⟨l, (Table.get?_set_of_ne h _ groups).trans e, List.prefix_rfl⟩
  newBuffers n x e := by
    rw [Table.get?_set, if_neg]
    · exact e
    · rintro rfl
      rcases there with h | h
      · exact n h
      · rw [e] at h
        cases h

end Scope.Keeps

namespace Scopes

variable {s s' s'' : Scopes} {i j : Nat} {g h : Gains}

/-- The change from `s` to `s'` is one that an evaluation in the scope `i` may make. -/
structure Frame (i : ScopeId) (g : Gains) (s s' : Scopes) : Prop where
  /-- No scope is lost. -/
  grows : s.all.size ≤ s'.all.size
  /-- Scopes apart from `i` and the scopes around it stay as they are. -/
  apart : ∀ j : Nat, j < s.all.size → j ∉ s.chain i → s'.get j = s.get j
  /-- What is new in a scope, the gains allow to it. -/
  keeps : ∀ j : Nat, j < s.all.size → (s.get j).Keeps (g.here s i j) (s'.get j)

/-- The owner of a scope is in its chain. -/
theorem owner_mem_chain (s : Scopes) (i : ScopeId) : s.owner i ∈ s.chain i := by
  unfold owner
  rcases e : s.nearest? i (·.ownsBuffers) with _ | k
  · exact List.getLastD_mem_cons
  · exact (mem_chain_of_nearest? e).1

namespace Frame

/-- The chains of the scopes that are there stay as they are. -/
theorem chain_eq (f : Frame i g s s') {j : Nat} (hj : j < s.all.size) :
    s'.chain j = s.chain j := by
  rw [chain, chain, (f.keeps j hj).ancestors]

/-- The owners of the scopes that are there stay as they are. -/
theorem owner_eq (f : Frame i g s s') (hs : s.WellFormed) {j : Nat} (hj : j < s.all.size) :
    s'.owner j = s.owner j := by
  have owns : s'.nearest? j (·.ownsBuffers) = s.nearest? j (·.ownsBuffers) := by
    rw [nearest?, nearest?, f.chain_eq hj]
    exact List.find?_congr fun k hk => (f.keeps k (hs.lt_size_of_mem_chain hj hk)).ownsBuffers
  rw [owner, owner, owns, root, root, (f.keeps j hj).ancestors]

/-- A store that is left alone is in its frame. -/
theorem refl (i : ScopeId) (g : Gains) (s : Scopes) : Frame i g s s where
  grows := Nat.le_refl _
  apart _ _ _ := rfl
  keeps j _ := .refl _ (s.get j)

/-- Two changes in a frame are one. -/
theorem trans (f : Frame i g s s') (k : Frame i g s' s'') (hs : s.WellFormed)
    (hi : i < s.all.size) : Frame i g s s'' where
  grows := Nat.le_trans f.grows k.grows
  apart j hj n := by
    rw [k.apart j (Nat.lt_of_lt_of_le hj f.grows) (by rwa [f.chain_eq hi]), f.apart j hj n]
  keeps j hj := by
    have h := k.keeps j (Nat.lt_of_lt_of_le hj f.grows)
    rw [Gains.here, f.owner_eq hs hi] at h
    exact (f.keeps j hj).trans h

/-- A change in a frame is one in every frame with more to gain. -/
theorem mono (l : g ≤ h) (f : Frame i g s s') : Frame i h s s' where
  grows := f.grows
  apart := f.apart
  keeps j hj := (f.keeps j hj).mono (Gains.here_mono l s i j)

/-- A change of one scope of the chain. -/
theorem modify {k : Nat} (hk : k ∈ s.chain i) (f : Scope → Scope)
    (keeps : (s.get k).Keeps (g.here s i k) (f (s.get k))) : Frame i g s (s.modify k f) where
  grows := Nat.le_of_eq (size_modify s k f).symm
  apart j _ n := get_modify_of_ne (fun e => n (by rwa [e])) f
  keeps j hj := by
    by_cases e : j = k
    · subst e
      rw [get_modify_self hj]
      exact keeps
    · rw [get_modify_of_ne e]
      exact .refl _ _

/-- What gains nothing in the chain of a scope gains nothing in a longer chain. -/
theorem widen (f : Frame i .none s s') {k : Nat} (sub : s.chain i ⊆ s.chain k) :
    Frame k g s s' where
  grows := f.grows
  apart j hj n := f.apart j hj fun m => n (sub m)
  keeps j hj := (f.keeps j hj).mono (Gains.here_none_le s i j _)

end Frame

/-- The selectors of a scope stay as they are unless they are gained. -/
theorem Frame.selector?_eq (f : Frame i g s s') (hs : s.WellFormed) (keeps : ¬ g.selector)
    {j : Nat} (hj : j < s.all.size) : s'.selector? j = s.selector? j := by
  rw [selector?, selector?, find?, find?, f.chain_eq hj]
  refine findSome?_congr fun k hk => ?_
  exact (f.keeps k (hs.lt_size_of_mem_chain hj hk)).selector fun h => keeps h.2

/-- The names of the variables in reach are the same unless one is gained. -/
theorem Frame.isSome_var?_eq (f : Frame i g s s') (hs : s.WellFormed) {name : String}
    (keeps : ¬ g.var (Name.normalize name)) {j : Nat} (hj : j < s.all.size) :
    (s'.var? j name).isSome = (s.var? j name).isSome := by
  rw [var?, var?, find?, find?, f.chain_eq hj, Bool.eq_iff_iff, List.findSome?_isSome_iff,
    List.findSome?_isSome_iff]
  refine exists_congr fun k => and_congr_right fun hk => ?_
  have kept := f.keeps k (hs.lt_size_of_mem_chain hj hk)
  refine ⟨fun there => ?_, kept.var_isSome _⟩
  by_contra missing
  rw [Option.not_isSome_iff_eq_none] at missing
  rw [kept.newVars _ (fun gained => keeps gained.2) missing] at there
  cases there

/-! ### The operations -/

/-- A variable may be set where it may be gained. -/
theorem frame_setLocalVar (s : Scopes) (i : ScopeId) (name : String) (v : Value)
    (allowed : g.var (Name.normalize name)) : Frame i g s (s.setLocalVar i name v) :=
  .modify (mem_chain_self s i) _ (.setVar _ v (.inl ⟨rfl, allowed⟩))

/-- An assignment writes to a variable that is there, or makes one in the scope itself. -/
theorem frame_setVar (s : Scopes) (i : ScopeId) (name : String) (v : Value)
    (allowed : g.var (Name.normalize name)) : Frame i g s (s.setVar i name v) := by
  show Frame i g s (s.setLocalVar
    ((s.nearest? i fun a => (a.vars.get? (Name.normalize name)).isSome).getD i) name v)
  rcases e : s.nearest? i fun a => (a.vars.get? (Name.normalize name)).isSome with _ | k
  · exact frame_setLocalVar s i name v allowed
  · obtain ⟨hk, there⟩ := mem_chain_of_nearest? e
    exact .modify hk _ (.setVar _ v (.inr there))

/-- A mixin may be defined where it may be gained. -/
theorem frame_setMixin (s : Scopes) (i : ScopeId) (name : String) (d : Definition)
    (allowed : g.mixin (Name.normalize name)) : Frame i g s (s.setMixin i name d) :=
  .modify (mem_chain_self s i) _ (.setMixin _ d ⟨rfl, allowed⟩)

/-- A function may be defined where it may be gained. -/
theorem frame_setFunction (s : Scopes) (i : ScopeId) (name : String) (d : Definition)
    (allowed : g.function (Name.normalize name)) : Frame i g s (s.setFunction i name d) :=
  .modify (mem_chain_self s i) _ (.setFunction _ d ⟨rfl, allowed⟩)

/-- Selectors may be set where they may be gained. -/
theorem frame_setSelector (s : Scopes) (i : ScopeId) (selector : Option (List String))
    (allowed : g.selector) : Frame i g s (s.setSelector i selector) :=
  .modify (mem_chain_self s i) _ (.setSelector _ selector ⟨rfl, allowed⟩)

/-- A name is declared where there is an entry already, or with the owner of entries. -/
theorem frame_declareBuffer {k : Nat} {name : String}
    (hk : k = s.owner i ∨ (s.bufferHolder? k name).isSome) (allowed : g.buffer) :
    Frame i g s (s.declareBuffer k name) := by
  unfold declareBuffer
  rcases e : s.bufferHolder? k name with _ | h
  · rw [e] at hk
    rcases hk with rfl | hk
    · refine .modify (owner_mem_chain s i) _ (.setBuffer _ [] (.inl ⟨rfl, allowed⟩) ?_)
      rw [buffers_get?_of_bufferHolder?_eq_none e (mem_chain_self s _)]
      exact List.prefix_rfl
    · cases hk
  · exact .refl i g s

/-- A group may be put into the entry of a name that is kept there. -/
theorem frame_appendBuffer (hs : s.WellFormed) (hi : i < s.all.size) {k : Nat} {name : String}
    (hk : k = s.owner i ∨ (s.bufferHolder? k name).isSome) (inside : k ∈ s.chain i)
    (group : GroupId) (allowed : g.buffer) : Frame i g s (s.appendBuffer k name group) := by
  have hks := hs.lt_size_of_mem_chain hi inside
  have declared : Frame i g s (s.declareBuffer k name) := frame_declareBuffer hk allowed
  refine declared.trans ?_ hs hi
  unfold appendBuffer
  generalize e : s.declareBuffer k name = s'
  rw [e] at declared
  obtain ⟨h, eh⟩ : ∃ h, s'.bufferHolder? k name = some h :=
    ⟨_, e ▸ bufferHolder?_declareBuffer hks name⟩
  obtain ⟨hh, there⟩ := mem_chain_of_nearest? eh
  have hhi : h ∈ s'.chain i := by
    rw [declared.chain_eq hks] at hh
    rw [declared.chain_eq hi]
    exact hs.chain_subset inside hh
  simp only [eh, Option.getD_some]
  exact .modify hhi _ (.setBuffer _ _ (.inr there) (List.prefix_append _ _))

/-! ### New scopes -/

/-- The chain of a new scope goes through its parent. -/
theorem chain_add (s : Scopes) (p : ScopeId) (owns : Option Bool) :
    (s.add (some p) none owns).2.chain s.all.size = s.all.size :: s.chain p := by
  rw [chain, get_add_self, chain]

/-- What a new scope does not have itself is found from its parent. -/
theorem find?_add {α : Type} (hs : s.WellFormed) {p : Nat} (hp : p < s.all.size) (owns : Bool)
    (f : Scope → Option α)
    (fresh : f ((s.add (some p) none (some owns)).2.get s.all.size) = none) :
    (s.add (some p) none (some owns)).2.find? s.all.size f = s.find? p f := by
  rw [find?, find?, chain_add, List.findSome?_cons, fresh]
  exact findSome?_congr fun k hk => by rw [get_add_of_lt (hs.lt_size_of_mem_chain hp hk)]

/-- A new scope has the selectors of its parent. -/
theorem selector?_add (hs : s.WellFormed) {p : Nat} (hp : p < s.all.size) (owns : Bool) :
    (s.add (some p) none (some owns)).2.selector? s.all.size = s.selector? p :=
  find?_add hs hp owns (·.selector) (by rw [get_add_self])

/-- A new scope has the variables of its parent in reach. -/
theorem var?_add (hs : s.WellFormed) {p : Nat} (hp : p < s.all.size) (owns : Bool)
    (name : String) :
    (s.add (some p) none (some owns)).2.var? s.all.size name = s.var? p name :=
  find?_add hs hp owns (fun a => a.vars.get? (Name.normalize name)) (by rw [get_add_self]; rfl)

/-- A new scope owns the entries that are made in it or leaves them to the owner of those
of its parent. -/
theorem owner_add (hs : s.WellFormed) {p : Nat} (hp : p < s.all.size) (owns : Bool) :
    (s.add (some p) none (some owns)).2.owner s.all.size =
      if owns then s.all.size else s.owner p := by
  have above :
      (s.chain p).find? (fun j => ((s.add (some p) none (some owns)).2.get j).ownsBuffers) =
        s.nearest? p (·.ownsBuffers) :=
    List.find?_congr fun k hk => by rw [get_add_of_lt (hs.lt_size_of_mem_chain hp hk)]
  have top : (s.add (some p) none (some owns)).2.root s.all.size = s.root p := by
    rw [root, get_add_self, List.getLastD_cons, root]
  rw [owner, nearest?, chain_add, List.find?_cons, above, get_add_self, top]
  cases owns <;> rfl

/-- **What happens inside a new scope is framed by the scope it was made in**, and only a
scope that does not own its entries can make some in the scopes around it. -/
theorem Frame.inside (hs : s.WellFormed) {p : Nat} (hp : p < s.all.size) {owns : Bool}
    (f : Frame s.all.size h (s.add (some p) none (some owns)).2 s')
    (allowed : owns = true ∨ g.buffer) : Frame p g s s' where
  grows := Nat.le_trans (by simp) f.grows
  apart j hj n := by
    rw [f.apart j (by simp; omega), get_add_of_lt hj]
    rw [chain, get_add_self]
    simp only [List.mem_cons, not_or]
    exact ⟨Nat.ne_of_lt hj, fun e => n (e ▸ mem_chain_self s p),
      fun m => n (List.mem_cons_of_mem p m)⟩
  keeps j hj := by
    have k := f.keeps j (by simp; omega)
    rw [get_add_of_lt hj] at k
    have ne : j ≠ s.all.size := Nat.ne_of_lt hj
    have less : h.here (s.add (some p) none (some owns)).2 s.all.size j ≤ g.here s p j := by
      refine ⟨fun _ m => (ne m.1).elim, fun _ m => (ne m.1).elim, fun _ m => (ne m.1).elim,
        fun m => (ne m.1).elim, fun m => ?_⟩
      have e := m.1
      rw [owner_add hs hp] at e
      cases owns with
      | true => exact (ne e).elim
      | false => exact ⟨e, allowed.resolve_left (by decide)⟩
    exact k.mono less

end Scopes
end Stylesheet

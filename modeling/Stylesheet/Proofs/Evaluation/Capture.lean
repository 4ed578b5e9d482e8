/-
# What an evaluation captures

The history of a world tells what its entries hold (`collected`), how its groups are
numbered, and what every flush has found: that is `World.Sound`, which evaluations keep.

An evaluation that comes to an end with some nodes has gone through the buffers and
flushes among them in document order, and in no others (`World.Produced`): the steps it
has added to the history are those of a walk through the nodes, and every node that is a
group is the one that is kept under its number.  Expressions and scripts capture nothing.
These are the courses of `capturing`, a conduct to which everything that a visit can do keeps
(`lawful_capturing`); evaluators keep to it, however deep they go
(`Recursion.produces_ofDepth`).
-/

import Stylesheet.Proofs.Evaluation.Conducted
import Stylesheet.Proofs.Evaluation.Frame
import Stylesheet.Proofs.Evaluation.Quiet

namespace Stylesheet

/-- A history: steps with the scope of the entry that each was about. -/
abbrev History := List (Option ScopeId × BufferStep)

/-- The group that a step has put into an entry, if it has. -/
def collect (k : ScopeId) (name : String) : Option ScopeId × BufferStep → Option GroupId
  | (some j, .group g (some n)) => if j = k ∧ n = name then some g else none
  | _ => none

/-- The groups that a history has put into an entry. -/
def collected (h : History) (k : ScopeId) (name : String) : List GroupId :=
  h.filterMap (collect k name)

/-- What a flush has found that came after a history. -/
def History.found (h : History) (holder : Option ScopeId) (name : String) : List GroupId :=
  match holder with
  | some k => collected h k name
  | none => []

/-- What two histories have put into an entry comes one after the other. -/
theorem collected_append (h h' : History) (k : ScopeId) (name : String) :
    collected (h ++ h') k name = collected h k name ++ collected h' k name :=
  List.filterMap_append

namespace World

/-- The history of a world accounts for its entries, its groups and its flushes. -/
structure Sound (bare : Bool) (w : World) : Prop where
  tame : w.scopes.Tame bare
  /-- An entry holds what has been put into it. -/
  entries : ∀ k name, w.scopes.entry k name = collected w.history.toList k name
  /-- Groups are numbered in the order in which they end. -/
  numbers : w.history.toList.filterMap (·.2.closed?) = List.range w.groups.size
  /-- A flush has a name and has found what was in its entry then. -/
  flushes : ∀ before holder name groups after,
    w.history.toList = before ++ (holder, .flush name groups) :: after →
      ∃ text, name = some text ∧ groups = History.found before holder text

/-- An evaluation from one world to another has gone along a walk. -/
structure Produced (w w' : World) (walk : List Tag) : Prop where
  groups : w.groups.toList <+: w'.groups.toList
  history : ∃ new : History, w'.history.toList = w.history.toList ++ new ∧
    new.map Prod.snd = walk.filterMap Tag.step?
  /-- The node of a group is the one that is kept under its number. -/
  kept : ∀ n g, .closes n ∈ walk → n.number? = some g → w'.groups[g]? = some n

namespace Produced

variable {bare : Bool} {w w' w'' : World} {walk walk' : List Tag} {cs : List Node}

/-- Where nothing is captured, nothing has been gone through. -/
theorem nil (groups : w'.groups = w.groups) (history : w'.history = w.history) :
    Produced w w' [] where
  groups := groups ▸ List.prefix_rfl
  history := ⟨[], by rw [history, List.append_nil], rfl⟩
  kept _ _ h := nomatch h

/-- The way through two walks is the way through both, one after the other. -/
theorem trans (p : Produced w w' walk) (q : Produced w' w'' walk') :
    Produced w w'' (walk ++ walk') where
  groups := p.groups.trans q.groups
  history := by
    obtain ⟨new, e, steps⟩ := p.history
    obtain ⟨new', e', steps'⟩ := q.history
    refine ⟨new ++ new', by rw [e', e, List.append_assoc], ?_⟩
    rw [List.map_append, steps, steps', List.filterMap_append]
  kept n g h num := by
    rcases List.mem_append.1 h with h | h
    · obtain ⟨more, e⟩ := q.groups
      have old := p.kept n g h num
      rw [← Array.getElem?_toList] at old ⊢
      rw [← e, List.getElem?_append_left]
      · exact old
      · exact (List.getElem?_eq_some_iff.1 old).1
    · exact q.kept n g h num

/-- A walk that comes past the same steps and the ends of the same groups. -/
theorem of_steps (p : Produced w w' walk)
    (steps : walk'.filterMap Tag.step? = walk.filterMap Tag.step?)
    (ends : ∀ n g, .closes n ∈ walk' → n.number? = some g → .closes n ∈ walk) :
    Produced w w' walk' where
  groups := p.groups
  history := by rw [steps]; exact p.history
  kept n g h num := p.kept n g (ends n g h num) num

/-- A node around what has been gone through that is neither a group nor a flush. -/
theorem around {info : Info} {head : Head}
    (p : Produced w w' (Node.tagsAll cs))
    (plain : (∀ name, head ≠ .buffer name) ∧ ∀ name captured, head ≠ .flush name captured) :
    Produced w w' (Node.tagsAll [.plain info head cs]) := by
  obtain ⟨notBuffer, notFlush⟩ := plain
  have opens : Tag.step? (.opens (.plain info head cs)) = none := by
    cases head with
    | flush name captured => exact (notFlush name captured rfl).elim
    | _ => rfl
  have closes : Tag.step? (.closes (.plain info head cs)) = none := by
    cases head with
    | buffer name => exact (notBuffer name rfl).elim
    | _ => rfl
  rw [Node.tagsAll_singleton]
  refine p.of_steps ?_ fun n g h num => ?_
  · show Node.steps _ = Node.stepsAll _
    rw [Node.steps_plain, opens, closes]
    simp
  · rw [Node.tags, List.mem_cons, List.mem_append, List.mem_singleton] at h
    rcases h with h | h | h
    · cases h
    · exact h
    · cases h
      cases head with
      | buffer name => exact (notBuffer name rfl).elim
      | _ => cases num

/-- A flush that has got a name and what it has found. -/
theorem flush (w : World) (info : Info) {name : BufferName} {text : String}
    (named : name.resolved = some text) (found : List GroupId) {children : List Node}
    (fresh : Node.freshAll bare children) (holder : Option ScopeId) :
    Produced w { w with history := w.history.push (holder, .flush (some text) found) }
      (Node.tagsAll [.plain info (.flush name found) children]) where
  groups := List.prefix_rfl
  history := by
    refine ⟨[(holder, .flush (some text) found)], Array.toList_push, ?_⟩
    show [_] = Node.stepsAll _
    rw [Node.stepsAll_singleton, Node.steps_plain, Node.stepsAll_of_freshAll fresh]
    simp [Tag.step?, named, BufferStep.live]
  kept n g h num := by
    rw [Node.tagsAll_singleton, Node.tags, List.mem_cons, List.mem_append,
      List.mem_singleton] at h
    rcases h with h | h | h
    · cases h
    · have idle := (Node.idle_of_freshAll fresh h).2
      rw [Tag.closed?, num] at idle
      cases idle
    · cases h
      cases num

/-- A group around what has been gone through. -/
theorem capture (p : Produced w w' (Node.tagsAll cs)) (info : Info) {name : BufferName}
    {text : String} (named : name.resolved = some text) (scopes : Scopes)
    (holder : Option ScopeId) :
    let node := Node.plain { info with group := some w'.groups.size } (.buffer name) cs
    Produced w
      { w' with
        groups := w'.groups.push node
        scopes
        history := w'.history.push (holder, .group w'.groups.size (some text)) }
      (Node.tagsAll [node]) := by
  intro node
  obtain ⟨new, e, steps⟩ := p.history
  have grown : w'.groups.toList <+: (w'.groups.push node).toList := by
    rw [Array.toList_push]
    exact List.prefix_append _ _
  refine ⟨p.groups.trans grown, ⟨new ++ [(holder, .group w'.groups.size (some text))], ?_, ?_⟩,
    fun n g h num => ?_⟩
  · rw [Array.toList_push, e, List.append_assoc]
  · show _ = Node.stepsAll _
    rw [Node.stepsAll_singleton, Node.steps_plain, List.map_append, steps]
    simp [Tag.step?, named, Node.stepsAll]
  · rw [Node.tagsAll_singleton, Node.tags, List.mem_cons, List.mem_append,
      List.mem_singleton] at h
    rcases h with h | h | h
    · cases h
    · have old := p.kept n g h num
      show (w'.groups.push node)[g]? = some n
      rw [Array.getElem?_push, if_neg, old]
      rintro rfl
      simp at old
    · cases h
      cases num
      exact Array.getElem?_push_size

end Produced

variable {bare : Bool}

/-- A sound world stays sound where nothing is captured. -/
theorem Sound.of_same {w w' : World} (h : w.Sound bare) (tame : w'.scopes.Tame bare)
    (same : w.SameBuffers w') : w'.Sound bare where
  tame := tame
  entries k name := by rw [same.entries, same.history, h.entries]
  numbers := by rw [same.history, same.groups, h.numbers]
  flushes := by rw [same.history]; exact h.flushes

/-- What a lookup of a buffer finds is what the history has put into the entry. -/
theorem Sound.found_eq {w : World} (h : w.Sound bare) (i : ScopeId) (name : String) :
    (w.scopes.buffer? i name).getD [] =
      History.found w.history.toList (w.scopes.bufferHolder? i name) name := by
  rw [Scopes.buffer?_eq]
  cases w.scopes.bufferHolder? i name with
  | none => rfl
  | some k => exact h.entries k name

/-- What is inside a list with a new last element is that element or inside the rest. -/
theorem eq_append_cons_of_snoc {α : Type} {l before after : List α} {a b : α}
    (h : l ++ [a] = before ++ b :: after) :
    (before = l ∧ b = a) ∨ ∃ after', l = before ++ b :: after' := by
  rcases List.eq_nil_or_concat after with rfl | ⟨after', c, rfl⟩
  · obtain ⟨rfl, e⟩ := List.append_inj' h rfl
    exact .inl ⟨rfl, (List.cons.inj e).1.symm⟩
  · refine .inr ⟨after', ?_⟩
    rw [List.concat_eq_append, ← List.cons_append, ← List.append_assoc] at h
    exact (List.append_inj' h rfl).1

/-- A flush that has found what is in its entry goes into the history. -/
theorem Sound.flush {w : World} (h : w.Sound bare) (holder : Option ScopeId) (text : String) :
    Sound bare
      { w with
        history := w.history.push
          (holder, .flush (some text) (History.found w.history.toList holder text)) } where
  tame := h.tame
  entries k name := by
    have nothing (groups : List GroupId) :
        collected [(holder, .flush (some text) groups)] k name = [] := by
      cases holder <;> rfl
    rw [Array.toList_push, collected_append, h.entries k name, nothing, List.append_nil]
  numbers := by
    rw [Array.toList_push, List.filterMap_append, h.numbers]
    exact List.append_nil _
  flushes before holder' name groups after e := by
    rw [Array.toList_push] at e
    rcases eq_append_cons_of_snoc e with ⟨rfl, last⟩ | ⟨after', e⟩
    · cases last
      exact ⟨text, rfl, rfl⟩
    · exact h.flushes before holder' name groups after' e

/-- A group that is put into an entry goes into the history. -/
theorem Sound.capture {w : World} (h : w.Sound bare) {k : Nat} (hk : k < w.scopes.all.size)
    (text : String) (node : Node) :
    Sound bare
      { w with
        groups := w.groups.push node
        scopes := w.scopes.appendBuffer k text w.groups.size
        history := w.history.push
          ((w.scopes.appendBuffer k text w.groups.size).bufferHolder? k text,
            .group w.groups.size (some text)) } := by
  obtain ⟨holder, found, entries⟩ :=
    Scopes.appendBuffer_spec h.tame.reachable.wellFormed.nested hk text w.groups.size
  constructor
  · exact h.tame.appendBuffer k text _
  · intro j name
    rw [Array.toList_push, collected_append, entries, h.entries, found]
    refine congrArg _ ?_
    simp only [collected, collect, List.filterMap_cons, List.filterMap_nil]
    by_cases e : j = holder ∧ name = text
    · rw [if_pos e, if_pos ⟨e.1.symm, e.2.symm⟩]
    · rw [if_neg e, if_neg fun c => e ⟨c.1.symm, c.2.symm⟩]
  · rw [Array.toList_push, List.filterMap_append, h.numbers, Array.size_push, List.range_succ]
    rfl
  · intro before holder' name groups after e
    rw [Array.toList_push] at e
    rcases eq_append_cons_of_snoc e with ⟨-, last⟩ | ⟨after', e⟩
    · cases last
    · exact h.flushes before holder' name groups after' e

end World

/-! ### Courses -/

/-- A sound world in which there is a certain scope. -/
def World.SoundAt (bare : Bool) (i : ScopeId) (w : World) : Prop :=
  w.Sound bare ∧ (i : Nat) < w.scopes.all.size

namespace World.SoundAt

variable {bare : Bool} {i : ScopeId} {w w' : World}

/-- A change that captures nothing. -/
theorem of_same (hw : w.SoundAt bare i) (tame : w'.scopes.Tame bare) (same : w.SameBuffers w') :
    w'.SoundAt bare i :=
  ⟨hw.1.of_same tame same, Nat.lt_of_lt_of_le hw.2 same.grows⟩

/-- A new scope in a sound world is there, and the world is sound. -/
theorem newScope {p : ScopeId} (hw : w.SoundAt bare p) (owns : Bool) :
    ((Eval.newScope p owns).after w).SoundAt bare w.scopes.all.size :=
  ⟨hw.1.of_same (hw.1.tame.add hw.2 (some owns)) (.newScope w p owns), by simp⟩

/-- What captures nothing in a new scope captures nothing around it. -/
theorem around {p b : ScopeId} {owns : Bool} (hw : w.SoundAt bare i) (hw' : w'.SoundAt bare b)
    (same : ((Eval.newScope p owns).after w).SameBuffers w') :
    w'.SoundAt bare i ∧ w.SameBuffers w' :=
  have same := (World.SameBuffers.newScope w p owns).trans same
  ⟨⟨hw'.1, Nat.lt_of_lt_of_le hw.2 same.grows⟩, same⟩

end World.SoundAt

/-- Where nodes are visited: in a document and in the bodies of mixins, or in the bodies of
functions. -/
inductive Realm where
  | document
  | script

namespace Course

section

variable (bare : Bool) (i : ScopeId)

/-- The course of a script, which captures nothing. -/
def calm : Course (World.SoundAt bare i) where
  goes w _ w' := w.SameBuffers w'
  stops w _ w' := w'.SoundAt bare i ∧ w.SameBuffers w'
  refl _ := .refl _
  trans _ h _ h' := h.trans h'
  stop _ h _ h' := ⟨h'.1, h.trans h'.2⟩

/-- The course of an expression, which captures nothing and comes past no node. -/
def silent : Course (World.SoundAt bare i) where
  goes w ns w' := ns = [] ∧ w.SameBuffers w'
  stops w _ w' := w'.SoundAt bare i ∧ w.SameBuffers w'
  refl _ := ⟨rfl, .refl _⟩
  trans _ h _ h' := ⟨by rw [h.1, h'.1, List.append_nil], h.2.trans h'.2⟩
  stop _ h _ h' := ⟨h'.1, h.2.trans h'.2⟩

/-- The course of an evaluation that goes through the buffers and the flushes of the nodes that
it comes past, wherever it stops. -/
def produced : Course (World.SoundAt bare i) where
  goes w ns w' := w.scopes.all.size ≤ w'.scopes.all.size ∧
    w.Produced w' (Node.tagsAll ns) ∧ Node.settledAll bare ns
  stops _ _ _ := True
  refl _ := ⟨Nat.le_refl _, .nil rfl rfl, rfl⟩
  trans _ h _ h' := by
    obtain ⟨grows, produced, settled⟩ := h
    obtain ⟨grows', produced', settled'⟩ := h'
    refine ⟨Nat.le_trans grows grows', ?_, Node.settledAll_append.2 ⟨settled, settled'⟩⟩
    rw [Node.tagsAll_append]
    exact produced.trans produced'
  stop _ _ _ _ := trivial

/-- The course of what is visited in a realm. -/
def within : Realm → Course (World.SoundAt bare i)
  | .document => produced bare i
  | .script => calm bare i

end

variable {bare : Bool} {i p : ScopeId} {w : World} {owns : Bool}

/-- What captures nothing and comes past nothing has gone through nothing. -/
theorem silent_le_produced : silent bare i ≤ produced bare i := by
  refine ⟨fun w ns w' h => ?_, fun _ _ _ _ => trivial⟩
  obtain ⟨rfl, same⟩ := h
  exact ⟨same.grows, .nil same.groups same.history, rfl⟩

/-- An expression may be evaluated in both realms. -/
theorem silent_le_within : (k : Realm) → silent bare i ≤ within bare i k
  | .document => silent_le_produced
  | .script => ⟨fun _ _ _ h => h.2, fun _ _ _ h => h⟩

/-- A script in a new scope captures nothing around it. -/
theorem opens_calm (hw : w.SoundAt bare i) (hp : w.SoundAt bare p) :
    Opens (calm bare w.scopes.all.size) (calm bare i) w p owns where
  known := hp.newScope owns
  goes hw' same := hw.around hw' same
  stops h := hw.around h.1 h.2

/-- An expression in a new scope captures nothing around it. -/
theorem opens_silent (hw : w.SoundAt bare i) (hp : w.SoundAt bare p) :
    Opens (silent bare w.scopes.all.size) (silent bare i) w p owns where
  known := hp.newScope owns
  goes hw' h := by
    obtain ⟨known, same⟩ := hw.around hw' h.2
    exact ⟨known, h.1, same⟩
  stops h := hw.around h.1 h.2

/-- What is gone through in a new scope is gone through around it. -/
theorem opens_produced (hw : w.SoundAt bare i) (hp : w.SoundAt bare p) :
    Opens (produced bare w.scopes.all.size) (produced bare i) w p owns where
  known := hp.newScope owns
  goes h going := by
    have same := World.SameBuffers.newScope w p owns
    have grows := Nat.le_trans same.grows going.1
    exact ⟨⟨h.1, Nat.lt_of_lt_of_le hw.2 grows⟩, grows,
      (World.Produced.nil same.groups same.history).trans going.2.1, going.2.2⟩
  stops _ := trivial

/-- What is visited in a new scope keeps to its realm. -/
theorem opens_within (hw : w.SoundAt bare i) (hp : w.SoundAt bare p) :
    (k : Realm) → Opens (within bare w.scopes.all.size k) (within bare i k) w p owns
  | .document => opens_produced hw hp
  | .script => opens_calm hw hp

end Course

/-! ### What an evaluation does to the buffers -/

/-- The nodes that are visited in a realm. -/
def Realm.Visited (bare : Bool) (n : Node) : Realm → Prop
  | document => n.fresh bare ∧ n.tame
  | script => n.scripted

namespace Evaluation

open Course

/-- **What an evaluation may do to the buffers.** -/
def capturing (bare : Bool) : Conduct Realm where
  known := World.SoundAt bare
  visited k n := k.Visited bare n
  mixin := .document
  function := .script
  expression := silent bare
  call := silent bare
  inclusion := produced bare
  block k i := within bare i k
  node k _ i := within bare i k
  visit k _ i := within bare i k

variable {bare : Bool} {i : ScopeId} {w w' : World} {info : Info} {head head' : Head}
  {cs ms : List Node}

/-- A change of one scope that leaves the buffers alone. -/
theorem allows_calm (hw : w.SoundAt bare i) (tame : w'.scopes.Tame bare)
    (same : w.SameBuffers w') : Conduct.Allows (silent bare i) w w' :=
  ⟨hw.of_same tame same, rfl, same⟩

/-- A change that leaves the buffers alone is allowed in both realms. -/
theorem allows_within (k : Realm) (hw : w.SoundAt bare i) (tame : w'.scopes.Tame bare)
    (same : w.SameBuffers w') : Conduct.Allows (within bare i k) w w' :=
  ⟨hw.of_same tame same, (silent_le_within k).1 _ _ _ ⟨rfl, same⟩⟩

/-- What has not been evaluated comes past nothing. -/
theorem produced_of_freshAll (w : World) (fresh : Node.freshAll bare cs) :
    w.Produced w (Node.tagsAll cs) := by
  refine (World.Produced.nil rfl rfl).of_steps (Node.stepsAll_of_freshAll fresh) fun n g h num => ?_
  have idle := (Node.idle_of_freshAll fresh h).2
  rw [Tag.closed?, num] at idle
  cases idle

/-- A node that is not gone into comes past nothing. -/
theorem produced_leaf (fresh : (Node.plain info head cs).fresh bare)
    (resolves : head.Resolves head') (leaf : head.entered = false) (other : head.kind ≠ .flush)
    (w : World) : (produced bare i).goes w [.plain info.apart head' cs] w := by
  simp only [Node.fresh, Bool.and_eq_true] at fresh
  obtain ⟨⟨-, suits⟩, inner⟩ := fresh
  refine ⟨Nat.le_refl _, (produced_of_freshAll w inner).around ⟨?_, ?_⟩, ?_⟩
  · rintro name rfl
    rw [← resolves.entered_eq] at leaf
    cases leaf
  · rintro name captured rfl
    exact other resolves.kind_eq.symm
  · rw [← resolves.suits_eq] at suits
    rw [← resolves.entered_eq] at leaf
    simp [Node.settledAll, Node.settled, resolves.settled other, Info.apart, leaf, suits, inner]

/-- A node around what has been gone through. -/
theorem produced_around (fresh : (Node.plain info head cs).fresh bare)
    (resolves : head.Resolves head') (entered : head.entered) (other : head.kind ≠ .buffer)
    (going : (produced bare i).goes w ms w') :
    (produced bare i).goes w [.plain info.apart head' ms] w' := by
  simp only [Node.fresh, Bool.and_eq_true] at fresh
  obtain ⟨⟨-, suits⟩, -⟩ := fresh
  obtain ⟨grows, produced, inner⟩ := going
  have noFlush : head.kind ≠ .flush := by
    cases head with
    | flush => cases entered
    | _ => nofun
  have suits := Head.suits_of_entered entered suits ms
  refine ⟨grows, produced.around ⟨?_, ?_⟩, ?_⟩
  · rintro name rfl
    exact other resolves.kind_eq.symm
  · rintro name captured rfl
    exact noFlush resolves.kind_eq.symm
  · rw [← resolves.suits_eq] at suits
    rw [← resolves.entered_eq] at entered
    simp [Node.settledAll, Node.settled, resolves.settled noFlush, Info.apart, entered, suits,
      inner]

/-- A buffer around what has been gone through is captured. -/
theorem produced_captured (going : (produced bare i).goes w ms w')
    (hw' : w'.SoundAt bare i) (name : BufferName) (text : String) :
    let keeper := bufferScope w'.scopes i text
    let group := Node.plain { info.apart with group := some w'.groups.size }
      (.buffer { name with resolved := some text }) ms
    let scopes := w'.scopes.appendBuffer keeper text w'.groups.size
    let w'' := { w' with
      groups := w'.groups.push group
      scopes
      history := w'.history.push
        (scopes.bufferHolder? keeper text, .group w'.groups.size (some text)) }
    w''.SoundAt bare i ∧ (produced bare i).goes w [group] w'' := by
  intro keeper group scopes w''
  obtain ⟨grows, produced, inner⟩ := going
  have keeps : keeper < w'.scopes.all.size :=
    hw'.1.tame.reachable.wellFormed.lt_size_of_mem_chain hw'.2 (bufferScope_spec w'.scopes i text).1
  have size : w''.scopes.all.size = w'.scopes.all.size := w'.scopes.size_appendBuffer keeper text _
  have suits : (Head.buffer { name with resolved := some text }).suits bare ms :=
    Head.suits_of_hasBody rfl ms
  refine ⟨⟨hw'.1.capture keeps text group, size ▸ hw'.2⟩, size ▸ grows,
    produced.capture info.apart rfl scopes _, ?_⟩
  rw [Node.settledAll, Node.settled, inner, suits]
  rfl

/-- A flush has found what is in its entry. -/
theorem produced_flushed (fresh : (Node.plain info head cs).fresh bare) (kind : head.kind = .flush)
    (hw : w.SoundAt bare i) (name : BufferName) (text : String) :
    let found := (w.scopes.buffer? i text).getD []
    let w' := { w with
      history := w.history.push (w.scopes.bufferHolder? i text, .flush (some text) found) }
    w'.SoundAt bare i ∧ (produced bare i).goes w
      [.plain info.apart (.flush { name with resolved := some text } found) cs] w' := by
  simp only [Node.fresh, Bool.and_eq_true] at fresh
  obtain ⟨⟨-, suits⟩, inner⟩ := fresh
  have same (captured : List GroupId) :
      (Head.flush { name with resolved := some text } captured).suits bare cs := by
    cases head with
    | flush => exact suits
    | _ => cases kind
  rw [hw.1.found_eq i text]
  refine ⟨⟨hw.1.flush _ text, hw.2⟩, Nat.le_refl _, .flush w info.apart rfl _ inner _, ?_⟩
  simp [Node.settledAll, Node.settled, Head.settled, Head.entered, Info.apart, same, inner]

/-- A buffer of nothing but comments, which come past nothing, drops them. -/
theorem produced_declared (going : (produced bare i).goes w ms w') (hw' : w'.SoundAt bare i)
    (comments : ms.all (·.kind == .comment)) (keeper : ScopeId) (text : String) :
    Conduct.Allows (produced bare i) w
      { w' with scopes := w'.scopes.declareBuffer keeper text } := by
  obtain ⟨grows, produced, settled⟩ := going
  have same := World.SameBuffers.declareBuffer w' keeper text
  have nothing : w.Produced w' [] :=
    produced.of_steps (Node.stepsAll_of_comments settled comments).symm fun _ _ h => nomatch h
  exact ⟨hw'.of_same (hw'.1.tame.declareBuffer keeper text) same, Nat.le_trans grows same.grows,
    nothing.trans (.nil same.groups same.history), rfl⟩

/-- What an evaluation does to the world keeps the buffers sound. -/
theorem moves_capturing : (capturing bare).Moves where
  expression_le_call _ := le_refl _
  call_le_inclusion _ := silent_le_produced
  block_le_inclusion _ := le_refl _
  expression_le_node {k _} _ _ := silent_le_within k
  visit_le_block _ _ := le_refl _
  clause_le_node _ _ := le_refl _
  calls hw found :=
    opens_silent hw ⟨hw.1, hw.1.tame.reachable.wellFormed.scope_lt_of_function? found⟩
  includes {k _ _ _ _ _ _ _ _ _} visited hw found hw' going := by
    cases k with
    | document =>
      have lt := hw.1.tame.reachable.wellFormed.scope_lt_of_mixin? found
      exact opens_produced hw' ⟨hw'.1, Nat.lt_of_lt_of_le lt going.2.grows⟩
    | script => cases (show false = true from visited)
  opens {k _ _ _} _ hw := opens_within hw hw k
  reopens k hw := opens_within hw hw k
  parameter name hw _ := allows_calm hw (hw.1.tame.setLocalVar _ name _) (.modify _ _ fun _ => rfl)
  round k name hw _ :=
    allows_within k hw (hw.1.tame.setLocalVar _ name _) (.modify _ _ fun _ => rfl)
  selects k hw _ := allows_within k hw (hw.1.tame.setSelector _ _) (.modify _ _ fun _ => rfl)
  assigns {k _ _ _ _ _ _ _ _} _ hw _ :=
    allows_within k hw (hw.1.tame.setLocalVar _ _ _) (.modify _ _ fun _ => rfl)
  definesMixin {k _ name params cs i _} visited hw := by
    cases k with
    | document =>
      let d : Definition := { what := .mixin, name, params, scope := i, body := cs }
      have body : Node.freshAll bare d.body ∧ Node.tameAll d.body :=
        ⟨Node.inner_of_fresh visited.1, visited.2⟩
      exact allows_within .document hw (hw.1.tame.setMixin name body) (.modify _ _ fun _ => rfl)
    | script => cases (show false = true from visited)
  definesFunction {k _ name params cs i _} visited hw := by
    cases k with
    | document =>
      let d : Definition := { what := .function, name, params, scope := i, body := cs }
      have body : Node.scriptedAll d.body := visited.2
      exact allows_within .document hw (hw.1.tame.setFunction name body) (.modify _ _ fun _ => rfl)
    | script => cases (show false = true from visited)
  notes {k _ _ _ _} _ _ hw := allows_within k hw hw.1.tame ⟨Nat.le_refl _, rfl, rfl, fun _ _ => rfl⟩
  leaf {k _ _ _ _ _ w} visited resolves leaf other _ := by
    cases k with
    | document => exact produced_leaf visited.1 resolves leaf other w
    | script => exact .refl w
  around {k _ _ _ _ _ _ _ _} visited resolves entered other _ going := by
    cases k with
    | document => exact produced_around visited.1 resolves entered other going
    | script => exact going
  declares {k _ _ _ _ _ _ _} text visited _ hw' going comments := by
    cases k with
    | document => exact produced_declared going hw' comments _ text
    | script => cases (show false = true from visited)
  captures {k _ name _ _ _ _ _} text visited _ hw' going _ := by
    cases k with
    | document => exact produced_captured going hw' name text
    | script => cases (show false = true from visited)
  flushes {k _ name _ _ _ _} text visited hw := by
    cases k with
    | document => exact produced_flushed visited.1 rfl hw name text
    | script => cases (show false = true from visited)
  raises hw _ := ⟨hw, .refl _⟩
  exhausted hw := ⟨hw, .refl _⟩
  returns {k _ _ _ _ _ _} _ hw _ := by
    cases k with
    | document => trivial
    | script => exact ⟨hw, .refl _⟩
  catches _ := ⟨fun _ same => ⟨rfl, same⟩, id, fun h => ⟨h.1, ⟨rfl, h.2⟩, trivial⟩, id⟩

/-- Inside a document there is a document, and inside a script there are scripts. -/
theorem visits_capturing : (capturing bare).Visits where
  heads _ := (capturing bare).admits_of_all (fun _ => trivial) (fun _ => trivial) .missing _
  inside {k _ head cs} visited control n hn := by
    cases k with
    | document =>
      refine ⟨Node.freshAll_iff.1 (Node.inner_of_fresh visited.1) n hn, ?_⟩
      have tame := visited.2
      cases head with
      | function => cases control
      | _ => exact Node.tameAll_iff.1 tame n hn
    | script =>
      cases head with
      | forLoop | eachLoop | whileLoop => exact Node.scriptedAll_iff.1 visited n hn
      | assignment | result | debug | warn | comment => cases control
      | _ => cases (show false = true from visited)
  tests _ _ _ := trivial
  clause {k _ _ _ _} visited := by
    cases k with
    | document =>
      obtain ⟨fresh, tame⟩ := visited
      simp only [Node.fresh, Bool.and_eq_true] at fresh
      rw [Node.tame, Bool.and_eq_true] at tame
      exact ⟨fun n hn => ⟨Node.freshAll_iff.1 fresh.1.2 n hn, Node.tameAll_iff.1 tame.1 n hn⟩,
        fun n hn => ⟨Node.freshOption_iff.1 fresh.2 n hn, Node.tameOption_iff.1 tame.2 n hn⟩⟩
    | script =>
      obtain ⟨inside, clause⟩ := (Bool.and_eq_true ..).mp visited
      exact ⟨Node.scriptedAll_iff.1 inside, Node.scriptedOption_iff.1 clause⟩

/-- **What a visit can do keeps the buffers sound.** -/
theorem lawful_capturing (bare : Bool) : (capturing bare).Lawful where
  computes := computes_raised
  visits := visits_capturing
  finds :=
    { values := fun _ _ => trivial
      selectors := fun _ _ _ _ => trivial
      functions := fun hw found => ⟨fun _ _ _ _ => trivial,
        Node.scriptedAll_iff.1 (hw.1.tame.scripted_of_function? found)⟩
      mixins := fun hw found => ⟨fun _ _ _ _ => trivial, fun n hn =>
        ⟨Node.freshAll_iff.1 (hw.1.tame.written_of_mixin? found).1 n hn,
          Node.tameAll_iff.1 (hw.1.tame.written_of_mixin? found).2 n hn⟩⟩
      resolve := fun _ _ => trivial }
  makes := Conduct.makes_of_all fun _ _ _ => trivial
  moves := moves_capturing

/-- Places do not matter to the buffers. -/
theorem leaves_capturing (bare : Bool) : (capturing bare).Leaves := by
  intro i k n _
  cases k with
  | document => exact ⟨id, id, id, id⟩
  | script => exact ⟨id, id, id, id⟩

end Evaluation

/-- Evaluators that go through the buffers and flushes of what they come to an end with. -/
def Recursion.Produces (bare : Bool) (r : Recursion) : Prop :=
  r.Conducted (Evaluation.capturing bare)

/-- **Evaluators go through what they come to an end with**, however deep they go. -/
theorem Recursion.produces_ofDepth (bare : Bool) (n : Nat) : (ofDepth n).Produces bare :=
  conducted_ofDepth (Evaluation.lawful_capturing bare) (Evaluation.leaves_capturing bare) n

namespace Evaluation

open Eval

variable {bare : Bool} {r : Recursion} (hr : r.Produces bare) {i : ScopeId} {body : List Node}
  (fresh : Node.freshAll bare body) (tame : Node.tameAll body)

/-- Whenever the evaluation, in the scope `i` of a sound world, comes to an end with some nodes,
it has gone through them. -/
def Yields (bare : Bool) (i : ScopeId) (x : Eval (List Node)) : Prop :=
  ∀ w nodes, w.SoundAt bare i → x.outcome w = .ok nodes →
    (x.after w).SoundAt bare i ∧ (Course.produced bare i).goes w nodes (x.after w)

/-- What goes through what it comes past goes through what it comes to. -/
theorem yields_of_follows {x : Eval (List Node)} {fits : List Node → Prop}
    (h : Follows (Course.produced bare i) x (Past fits)) : Yields bare i x := by
  intro w nodes hw e
  rcases (h w hw).ended with ⟨ms, ns, e', hw', going, same, -⟩ | ⟨_, e', -⟩
  · rw [e] at e'
    cases e'
    exact ⟨hw', same ▸ going⟩
  · rw [e] at e'
    cases e'

include hr fresh tame

/-- The nodes that some statements come to have been gone through. -/
theorem yields_visitAll : Yields bare i (visitAll r i body) :=
  yields_of_follows (follows_visitAll (k := .document) (lawful_capturing bare) hr fun n hn =>
    ⟨Node.freshAll_iff.1 fresh n hn, Node.tameAll_iff.1 tame n hn⟩)

/-- The nodes that a body comes to have been gone through. -/
theorem yields_visitBody : Yields bare i (visitBody r i body) :=
  yields_of_follows fun _ hw => takes_visitBody (k := .document) (lawful_capturing bare) hr
    (fun n hn => ⟨Node.freshAll_iff.1 fresh n hn, Node.tameAll_iff.1 tame n hn⟩)
    (Course.opens_produced hw hw)

end Evaluation
end Stylesheet

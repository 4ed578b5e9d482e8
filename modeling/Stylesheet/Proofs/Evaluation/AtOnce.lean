/-
# Evaluating a buffer that is flushed at once

A buffer around rules, queries and conditions at the root, with a flush right after it,
comes to what these statements come to, captured in a group (`CapturedIn`), and what comes
after it is evaluated as if neither were there, but for the numbers of groups.  That is so
if the name of the buffer is about nothing else (`Evaluation.ended_visitAll`).

The statements before the buffer are evaluated in lockstep, those in it in a block that has
nothing in it, and those after it with one scope and one group more.
-/

import Stylesheet.Proofs.Evaluation.Document
import Stylesheet.Proofs.Evaluation.Visits
import Stylesheet.Proofs.Scope.Inserted

namespace Stylesheet

open BufferStep (closed)

/-- A buffer around some statements, and a flush of it. -/
def captureFlush (info info' : Info) (name : String) (body : List Node) : List Node :=
  [.plain info (.buffer { written := [.text name] }) body,
    .plain info' (.flush { written := [.text name] } []) []]

/-- The name that a buffer has that is written so. -/
def bufferKey (name : String) : String :=
  Name.normalize (Text.trim name)

/-- Whether a text is the name of a buffer that is written so. -/
def isKey (name text : String) : Bool :=
  text == bufferKey name

/-- A name is about itself, in any spelling. -/
theorem isKey_bufferKey (name : String) : isKey name (bufferKey name) = true :=
  beq_self_eq_true _

/-- The name of a buffer that has been evaluated. -/
def resolvedName (name : String) : BufferName :=
  { written := [.text name], resolved := some (bufferKey name) }

/-- Some nodes are others with a part of them captured and flushed at once. -/
def CapturedIn (info info' : Info) (name : String) (ns ns' : List Node) : Prop :=
  ∃ before body after k,
    ns = before ++ (body ++ after) ∧
    ns' = before ++ (.plain { info with group := some k } (.buffer (resolvedName name)) body ::
      .plain info'.apart (.flush (resolvedName name) [k]) [] ::
        Node.renamedAll (shift k) (fun _ => false) after) ∧
    body.all Node.grouping ∧ closed (Node.stepsAll (before ++ body)) = List.range k

namespace Evaluation

open Eval

/-! ### Finding what has been buffered -/

/-- A name that has been declared where a scope keeps it is found in the scope, and what has
been collected under it is what was found before. -/
theorem declared_bufferScope {s : Scopes} (hs : s.WellFormed) {i : Nat} (hi : i < s.all.size)
    (name : String) :
    ∃ h : Nat, h < (s.declareBuffer (bufferScope s i name) name).all.size ∧
      (s.declareBuffer (bufferScope s i name) name).bufferHolder? (bufferScope s i name) name =
        some h ∧
      (s.declareBuffer (bufferScope s i name) name).bufferHolder? i name = some h ∧
      ((s.declareBuffer (bufferScope s i name) name).get h).buffers.get? name =
        some ((s.buffer? i name).getD []) := by
  have keeper := (bufferScope_spec s i name).1
  cases found : s.buffer? i name with
  | some l =>
    have here : bufferScope s i name = i := by
      rw [bufferScope, found]
    rw [here]
    rw [Scopes.buffer?_eq] at found
    obtain ⟨h, holder, entry⟩ := Option.bind_eq_some_iff.1 found
    have declared : s.declareBuffer i name = s := by
      rw [Scopes.declareBuffer, holder]
    have mem := (Scopes.mem_chain_of_nearest? holder).1
    exact ⟨h, by simpa [declared] using hs.lt_size_of_mem_chain hi mem,
      by simpa [declared] using holder, by simpa [declared] using holder,
      by simpa [declared] using entry⟩
  | none =>
    generalize bufferScope s i name = k at keeper ⊢
    have hk := hs.lt_size_of_mem_chain hi keeper
    have nowhere {j : Nat} (hj : j ∈ s.chain i) : (s.get j).buffers.get? name = none :=
      List.findSome?_eq_none_iff.1 found j hj
    have absent : s.bufferHolder? k name = none :=
      List.find?_eq_none.2 fun j hj => by simp [nowhere (hs.chain_subset keeper hj)]
    have declared : s.declareBuffer k name =
        s.modify k fun a => { a with buffers := a.buffers.set name [] } := by
      rw [Scopes.declareBuffer, absent]
    rw [declared]
    generalize made : (s.modify k fun a => { a with buffers := a.buffers.set name [] }) = t
    have own : (t.get k).buffers.get? name = some [] := by
      rw [← made, Scopes.get_modify_self hk, Table.get?_set_self]
    have chain (j : ScopeId) : t.chain j = s.chain j := by
      rw [← made, Scopes.chain, Scopes.get_modify_field (·.ancestors) rfl, Scopes.chain]
    -- the entry has been made in `k`, and no other scope around has one
    have holder {j : Nat} (sub : s.chain j ⊆ s.chain i) (mem : k ∈ s.chain j) :
        t.bufferHolder? j name = some k := by
      obtain ⟨h, eh⟩ := Option.isSome_iff_exists.1 (Scopes.bufferHolder?_isSome_of_get?
        (chain j ▸ mem) (by rw [own]; rfl : ((t.get k).buffers.get? name).isSome))
      obtain ⟨inside, there⟩ := Scopes.mem_chain_of_nearest? eh
      have same : h = k := by
        by_contra ne
        rw [← made, Scopes.get_modify_of_ne ne, nowhere (sub (chain j ▸ inside))] at there
        cases there
      rw [eh, same]
    refine ⟨k, ?_, holder (hs.chain_subset keeper) (s.mem_chain_self k),
      holder (List.Subset.refl _) keeper, own⟩
    rw [← made, Scopes.size_modify]
    exact hk

/-- **What a scope buffers is found in it.** -/
theorem buffer?_appendBuffer {s : Scopes} (hs : s.WellFormed) {i : Nat} (hi : i < s.all.size)
    (name : String) (g : GroupId) :
    (s.appendBuffer (bufferScope s i name) name g).buffer? i name =
      some ((s.buffer? i name).getD [] ++ [g]) := by
  obtain ⟨h, hh, keeper, holder, entry⟩ := declared_bufferScope hs hi name
  simp only [Scopes.appendBuffer, keeper, Option.getD_some]
  generalize s.declareBuffer (bufferScope s i name) name = t at hh holder entry ⊢
  rw [Scopes.buffer?_eq, Scopes.bufferHolder?_modify (by rw [entry]; rfl) (by intro; rfl)
    (by rw [Table.get?_set_self]; rfl), holder, Option.bind_some, Scopes.get_modify_self hh,
    Table.get?_set_self, entry]
  rfl

/-! ### Names that are fixed -/

/-- A name without a hole is resolved to itself. -/
theorem resolveName_text (r : Recursion) (i : ScopeId) {name : String}
    (named : (bufferKey name).isEmpty = false) :
    resolveName r i { written := [.text name] } =
      (pure (bufferKey name, resolvedName name) : Eval _) := by
  have text : bufferText r i { written := [.text name] } = (pure (bufferKey name) : Eval _) := by
    rw [bufferText, fill, List.mapM_cons, List.mapM_nil]
    simp [fragmentText, bufferKey, String.join]
  rw [resolveName, text, pure_bind, named]
  rfl

/-- What a flush of a fixed name comes to. -/
theorem visitFlush_text (r : Recursion) (i : ScopeId) (info : Info) {name : String}
    (named : (bufferKey name).isEmpty = false) (w : World) :
    ∃ log history, (visitFlush r i info { written := [.text name] } []).run.run w =
      (.ok [.plain info (.flush (resolvedName name)
        ((w.scopes.buffer? i (bufferKey name)).getD [])) []], { w with log, history }) := by
  rw [visitFlush, resolveName_text r i named, pure_bind, run_bind, outcome_scopes, after_scopes]
  dsimp only
  have notes : ∃ log, (noteUnknown w.scopes i (bufferKey name)).after w = { w with log } := by
    unfold noteUnknown
    split
    · exact ⟨w.log, rfl⟩
    · exact ⟨_, rfl⟩
  obtain ⟨log, e⟩ := notes
  rw [run_bind, outcome_noteUnknown, e]
  exact ⟨log, _, rfl⟩

/-! ### Rules, queries and conditions -/

/-- Whatever an evaluation comes to has a property. -/
def Gives {α : Type} (x : Eval α) (p : α → Prop) : Prop :=
  ∀ w a, x.outcome w = .ok a → p a

section Gives

variable {α β : Type} {p : β → Prop}

/-- An evaluation that stands still gives what it is made of. -/
theorem Gives.pure {b : β} (h : p b) : Gives (Pure.pure b) p := by
  rintro w _ ⟨⟩
  exact h

/-- What is given goes on to what follows. -/
theorem Gives.bind {x : Eval α} {f : α → Eval β} {q : α → Prop} (hx : Gives x q)
    (h : ∀ a, q a → Gives (f a) p) : Gives (x >>= f) p := by
  intro w b e
  rw [outcome_bind] at e
  cases o : x.outcome w with
  | ok a =>
    rw [o] at e
    exact h a (hx w a o) _ b e
  | error i =>
    rw [o] at e
    cases e

/-- Of the first part nothing has to be known. -/
theorem Gives.after {x : Eval α} {f : α → Eval β} (h : ∀ a, Gives (f a) p) :
    Gives (x >>= f) p :=
  Gives.bind (q := fun _ => True) (fun _ _ _ => trivial) fun a _ => h a

end Gives

/-- A rule becomes a rule, and so do queries and conditions. -/
theorem grouping_of_visitNode {r : Recursion} {i : ScopeId} {n : Node} (h : n.grouping) :
    Gives (visitNode r i n) fun ns => ∃ m, ns = [m] ∧ m.grouping := by
  match n with
  | .plain info head children =>
    suffices plain : Gives (visitPlain r i info.apart head children)
        fun ns => ∃ m, ns = [m] ∧ m.grouping from
      fun w a e => plain w a (outcome_locate_eq_ok.1 e)
    cases head with
    | rule =>
      exact .after fun _ => .after fun _ => .after fun _ => .after fun _ => .after fun _ =>
        .after fun _ => .pure ⟨_, rfl, rfl⟩
    | media => exact .after fun _ => .after fun _ => .pure ⟨_, rfl, rfl⟩
    | supports => exact .after fun _ => .after fun _ => .pure ⟨_, rfl, rfl⟩
    | _ => cases h
  | .cond .. => cases h

/-- The first node is visited, and then the others. -/
theorem visitAll_cons (r : Recursion) (i : ScopeId) (n : Node) (ns : List Node) :
    visitAll r i (n :: ns) = (do
      let first ← r.visit i n
      let others ← visitAll r i ns
      return first ++ others) := by
  simp [visitAll]

/-- Nodes are visited from the first to the last. -/
theorem visitAll_append (r : Recursion) (i : ScopeId) (ns ms : List Node) :
    visitAll r i (ns ++ ms) = (do
      let first ← visitAll r i ns
      let others ← visitAll r i ms
      return first ++ others) := by
  simp [visitAll]

/-- Rules, queries and conditions become as many rules, queries and conditions. -/
theorem grouping_of_visitAll (depth : Nat) (i : ScopeId) {ns : List Node}
    (h : ns.all Node.grouping) :
    Gives (visitAll (Recursion.ofDepth depth) i ns) fun ms =>
      ms.all Node.grouping ∧ ms.length = ns.length := by
  induction ns with
  | nil => exact .pure ⟨rfl, rfl⟩
  | cons n ns ih =>
    rw [List.all_cons, Bool.and_eq_true] at h
    rw [visitAll_cons]
    have first : Gives ((Recursion.ofDepth depth).visit i n) fun ms =>
        ∃ m, ms = [m] ∧ m.grouping := by
      cases depth with
      | zero => exact fun _ _ e => nomatch e
      | succ depth => exact grouping_of_visitNode h.1
    refine first.bind fun _ one => (ih h.2).bind fun others rest => .pure ?_
    obtain ⟨m, rfl, group⟩ := one
    obtain ⟨all, length⟩ := rest
    constructor
    · rw [List.singleton_append, List.all_cons, group, all]
      rfl
    · rw [List.singleton_append, List.length_cons, List.length_cons, length]

end Evaluation

/-! ### Capturing -/

namespace Eval

variable {α β γ δ : Type}

/-- How two evaluations end, of which the first or the second may be allowed too little
depth to end as the other does. -/
inductive Ended (first second : Prop) (fits : α → β → Prop) :
    Except Interrupt α → Except Interrupt β → Prop where
  | ok {a : α} {b : β} (fit : fits a b) : Ended first second fits (.ok a) (.ok b)
  | error {i j : Interrupt} : Ended first second fits (.error i) (.error j)
  | early {i : Interrupt} {p : Except Interrupt β} (h : first) :
      Ended first second fits (.error i) p
  | late {j : Interrupt} {p : Except Interrupt α} (h : second) :
      Ended first second fits p (.error j)

variable {first second : Prop} {fits : α → β → Prop} {fits' : γ → δ → Prop} {x : Eval α}
  {y : Eval β} {w v : World} {related : World → World → Prop}

/-- How evaluations end that go on from two that are in lockstep. -/
theorem Matched.ended {p : Except Interrupt γ} {q : Except Interrupt δ}
    (h : Matched related first second fits (x.run.run w) (y.run.run v))
    (fails : ∀ i, x.outcome w = .error i → ∃ j, p = .error j)
    (fails' : ∀ i, y.outcome v = .error i → ∃ j, q = .error j)
    (ok : ∀ a b, fits a b → x.outcome w = .ok a → y.outcome v = .ok b →
      related (x.after w) (y.after v) → Ended first second fits' p q) :
    Ended first second fits' p q := by
  rw [run_eq, run_eq] at h
  cases o : x.outcome w with
  | error i =>
    obtain ⟨i', rfl⟩ := fails i o
    cases o' : y.outcome v with
    | error j =>
      obtain ⟨j', rfl⟩ := fails' j o'
      exact .error
    | ok b =>
      rw [o, o'] at h
      cases h with
      | early h => exact .early h
  | ok a =>
    cases o' : y.outcome v with
    | error j =>
      obtain ⟨j', rfl⟩ := fails' j o'
      rw [o, o'] at h
      cases h with
      | late h => exact .late h
    | ok b =>
      rw [o, o'] at h
      cases h with
      | ok fit worlds => exact ok a b fit o o' worlds

/-- What follows does not matter where the first part is interrupted. -/
theorem error_bind {f : α → Eval γ} (i : Interrupt) (h : x.outcome w = .error i) :
    ∃ j, (x >>= f).outcome w = .error j :=
  ⟨i, by rw [outcome_bind, h]⟩

/-- What goes on from two evaluations in lockstep ends like them. -/
theorem Matched.bind_ended {f : α → Eval γ} {g : β → Eval δ}
    (h : Matched related first second fits (x.run.run w) (y.run.run v))
    (ok : ∀ a b, fits a b → x.outcome w = .ok a → y.outcome v = .ok b →
      related (x.after w) (y.after v) →
        Ended first second fits' ((f a).outcome (x.after w)) ((g b).outcome (y.after v))) :
    Ended first second fits' ((x >>= f).outcome w) ((y >>= g).outcome v) := by
  refine h.ended error_bind error_bind fun a b fit o o' worlds => ?_
  rw [outcome_bind, outcome_bind, o, o']
  exact ok a b fit o o' worlds

end Eval

namespace Evaluation

open Eval

/-- What no step of a sound world is about has not been buffered. -/
theorem buffer?_of_avoids {v : World} (sound : v.Sound true) {free : String → Bool}
    {text : String} (h : free text = true)
    (avoids : Node.Avoids free (v.history.toList.map Prod.snd)) (i : ScopeId) :
    (v.scopes.buffer? i text).getD [] = [] := by
  rw [sound.found_eq]
  cases v.scopes.bufferHolder? i text with
  | none => rfl
  | some k =>
    refine List.eq_nil_iff_forall_not_mem.2 fun g hg => ?_
    have named := avoids _ (step_of_mem_collected hg)
    rw [BufferStep.name, Option.any_some, h] at named
    cases named

variable {name : String} (named : (bufferKey name).isEmpty = false) {r : Recursion} {i : Nat}
  {body : List Node}

include named

/-- A buffer fails if its content does. -/
theorem visitNode_buffer_error (info : Info) {v : World} {j : Interrupt}
    (h : (visitBody r i body).outcome v = .error j) :
    ∃ j', (visitNode r i (.plain info (.buffer { written := [.text name] }) body)).outcome v =
      .error j' := by
  have located : visitNode r i (.plain info (.buffer { written := [.text name] }) body) =
    Eval.locate info.span (visitBuffer r i info.apart { written := [.text name] } body) := rfl
  have inner : ∃ j', (visitBuffer r i info.apart { written := [.text name] } body).outcome v =
      .error j' := by
    rw [visitBuffer, resolveName_text r i named, pure_bind]
    exact error_bind j h
  rw [located]
  cases o : (Eval.locate info.span _).outcome v with
  | error j' => exact ⟨j', rfl⟩
  | ok ns =>
    obtain ⟨j', e⟩ := inner
    cases (outcome_locate_eq_ok.1 o).symm.trans e

/-- A buffer whose content is more than comments becomes a group, which is found from where
the buffer is. -/
theorem visitNode_buffer (info : Info) {v w : World} {children : List Node}
    (h : (visitBody r i body).outcome v = .ok children) (after : (visitBody r i body).after v = w)
    (content : children.all (·.kind == .comment) = false) (wf : w.scopes.WellFormed)
    (hi : i < w.scopes.all.size) :
    ∃ w', (visitNode r i (.plain info (.buffer { written := [.text name] }) body)).run.run v =
        (.ok [.plain { info with group := some w.groups.size } (.buffer (resolvedName name))
          children], w') ∧
      w'.groups.size = w.groups.size + 1 ∧
      w.scopes.SameBut (isKey name) w'.scopes ∧
      w'.scopes.buffer? i (bufferKey name) =
        some ((w.scopes.buffer? i (bufferKey name)).getD [] ++ [w.groups.size]) := by
  have located : visitNode r i (.plain info (.buffer { written := [.text name] }) body) =
    Eval.locate info.span (visitBuffer r i info.apart { written := [.text name] } body) := rfl
  have inner : (visitBuffer r i info.apart { written := [.text name] } body).run.run v =
      (capture (bufferScope w.scopes i (bufferKey name)) (bufferKey name) info.apart
        (resolvedName name) children).run.run w := by
    rw [visitBuffer, resolveName_text r i named, pure_bind]
    dsimp only
    rw [run_bind, h, after]
    dsimp only
    rw [run_bind, outcome_scopes, after_scopes]
    dsimp only
    rw [content]
    rfl
  obtain ⟨log, -, captured⟩ := after_capture (bufferScope w.scopes i (bufferKey name))
    (bufferKey name) info.apart (resolvedName name) children w
  rw [run_eq _ w, outcome_capture] at inner
  generalize (capture _ (bufferKey name) info.apart (resolvedName name) children).after w = w'
    at inner captured
  refine ⟨w', ?_, ?_, ?_, ?_⟩
  · rw [located, Eval.locate, run_tryCatch, outcome, Eval.after, inner]
    rfl
  · rw [captured]
    exact Array.size_push _
  · rw [captured]
    exact Scopes.sameBut_appendBuffer (isKey_bufferKey name) _ _ _
  · rw [captured]
    exact buffer?_appendBuffer wf hi (bufferKey name) _

/-- A flush of a fixed name comes to what has been buffered. -/
theorem visitNode_flush (info : Info) (w : World) :
    ∃ log history,
      (visitNode r i (.plain info (.flush { written := [.text name] } []) [])).run.run w =
        (.ok [.plain info.apart (.flush (resolvedName name)
          ((w.scopes.buffer? i (bufferKey name)).getD [])) []], { w with log, history }) := by
  have located : visitNode r i (.plain info (.flush { written := [.text name] } []) []) =
    Eval.locate info.span (visitFlush r i info.apart { written := [.text name] } []) := rfl
  obtain ⟨log, history, inner⟩ := visitFlush_text r i info.apart named w
  refine ⟨log, history, ?_⟩
  rw [located, Eval.locate, run_tryCatch, outcome, Eval.after, inner]

/-! ### One evaluation beside the other -/

section CaptureFlush

variable (info info' : Info) {depth : Nat} {v : World} {δ : Type} (G : List Node → Eval δ)

omit named in
/-- Statements that are captured and flushed at once are a buffer and a flush. -/
theorem visitAll_captureFlush :
    visitAll (Recursion.ofDepth (depth + 1)) i (captureFlush info info' name body) >>= G = (do
      let captured ← visitNode (Recursion.ofDepth depth) i
        (.plain info (.buffer { written := [.text name] }) body)
      let flushed ← visitNode (Recursion.ofDepth depth) i
        (.plain info' (.flush { written := [.text name] } []) [])
      G (captured ++ flushed)) := by
  rw [captureFlush, visitAll_cons, visitAll_cons]
  simp [visitAll, Recursion.ofDepth]

/-- What interrupts the content of the buffer interrupts the whole. -/
theorem captureFlush_error {j : Interrupt}
    (h : (visitBody (Recursion.ofDepth depth) i body).outcome v = .error j) :
    ∃ j', (visitAll (Recursion.ofDepth (depth + 1)) i (captureFlush info info' name body) >>=
      G).outcome v = .error j' := by
  obtain ⟨j', e⟩ := visitNode_buffer_error named info h
  rw [visitAll_captureFlush]
  exact error_bind j' e

/-- Rules, queries and conditions that are captured and flushed at once: the flush has
captured them, and nothing else if the name is about nothing else. -/
theorem captureFlush_ok (fresh : Node.freshAll true body) (tame : Node.tameAll body)
    (grouping : body.all Node.grouping) (some' : body ≠ []) (sound : v.Sound true)
    (hi : i < v.scopes.all.size) {content : List Node} {w : World}
    (h : (visitBody (Recursion.ofDepth depth) i body).outcome v = .ok content)
    (after : (visitBody (Recursion.ofDepth depth) i body).after v = w) :
    ∃ w' captured,
      (visitAll (Recursion.ofDepth (depth + 1)) i (captureFlush info info' name body) >>=
          G).outcome v =
        (G [.plain { info with group := some w.groups.size } (.buffer (resolvedName name)) content,
          .plain info'.apart (.flush (resolvedName name) captured) []]).outcome w' ∧
      w'.groups.size = w.groups.size + 1 ∧
      w.scopes.SameBut (isKey name) w'.scopes ∧
      (Node.Avoids (isKey name) (w.history.toList.map Prod.snd) →
        captured = [w.groups.size]) := by
  obtain ⟨⟨sound', -⟩, grows, -⟩ :=
    yields_visitBody (Recursion.produces_ofDepth true depth) fresh tame v _ ⟨sound, hi⟩ h
  rw [after] at sound' grows
  have more : content.all (·.kind == .comment) = false := by
    rw [visitBody, newBlock, outcome_bind, outcome_newScope] at h
    obtain ⟨all, length⟩ := grouping_of_visitAll depth _ grouping _ _ h
    cases content with
    | nil => exact (some' (List.eq_nil_of_length_eq_zero length.symm)).elim
    | cons n ns =>
      rw [List.all_cons, Bool.and_eq_true] at all
      match n with
      | .plain info head cs =>
        cases head with
        | rule | media | supports => rfl
        | _ => cases all.1
      | .cond .. => cases all.1
  obtain ⟨w', run, size, same, found⟩ := visitNode_buffer named info h after more
    sound'.tame.reachable.wellFormed (Nat.lt_of_lt_of_le hi grows)
  obtain ⟨log, history, run'⟩ := visitNode_flush named (r := Recursion.ofDepth depth) (i := i)
    info' w'
  refine ⟨{ w' with log, history }, (w'.scopes.buffer? i (bufferKey name)).getD [], ?_, size, same,
    fun avoids => ?_⟩
  · rw [visitAll_captureFlush, outcome_bind_of_run run, outcome_bind_of_run run']
    rfl
  · rw [found, buffer?_of_avoids sound' (isKey_bufferKey name) avoids i]
    rfl

/-- Some rules, queries and conditions, and a buffer around them with a flush, and what goes
on from both. -/
theorem ended_captureFlush {depth' : Nat} {first second : Prop} (fewer : depth' < depth → first)
    (more : depth < depth' → second) (fresh : Node.freshAll true body)
    (tame : Node.tameAll body) (grouping : body.all Node.grouping) (some' : body ≠ [])
    {w : World} (worlds : w.Renamed (.same (isKey name)) v) (sound : w.Sound true)
    (sound' : v.Sound true) (hi : i < w.scopes.all.size) {γ : Type} {fits : γ → δ → Prop}
    {F : List Node → Eval γ}
    (next : ∀ content content' w' v' captured,
      (visitAll (Recursion.ofDepth depth') i body).outcome w = .ok content →
      (visitAll (Recursion.ofDepth depth') i body).after w = w' →
      Node.renamedAll id (isKey name) content = Node.renamedAll id (isKey name) content' →
      (Node.Avoids (isKey name) (v.history.toList.map Prod.snd ++ Node.stepsAll content') →
        captured = [w'.groups.size]) →
      w'.Renamed (.insert w.scopes.all.size (shift w'.groups.size) (0, 0) (isKey name)) v' →
      Ended first second fits ((F content).outcome w')
        ((G [.plain { info with group := some w'.groups.size } (.buffer (resolvedName name))
            content', .plain info'.apart (.flush (resolvedName name) captured) []]).outcome
          v')) :
    Ended first second fits
      ((visitAll (Recursion.ofDepth depth') i body >>= F).outcome w)
      ((visitAll (Recursion.ofDepth (depth + 1)) i (captureFlush info info' name body) >>=
        G).outcome v) := by
  have size : w.scopes.all.size = v.scopes.all.size := worlds.scopes.size 0
  have hi' : i < v.scopes.all.size := size ▸ hi
  -- the content of the buffer is evaluated in a block in which what is in `i` is found
  have inserted : w.Renamed (.insert w.scopes.all.size id (i, w.scopes.all.size) (isKey name))
      ((newBlock i).after v) :=
    ⟨worlds.scopes.insert sound.tame.reachable.wellFormed sound'.tame.reachable.wellFormed hi,
      worlds.groups⟩
  have lock := (Recursion.lockstep_ofDepth (.insert w.scopes.all.size id (i, w.scopes.all.size)
    (isKey name)) depth' depth fewer more).visitAll fresh
      (fun n hn => .inr ⟨.inr rfl, List.all_eq_true.1 grouping n hn⟩) w _ inserted
  have block : (visitBody (Recursion.ofDepth depth) i body).run.run v =
      (visitAll (Recursion.ofDepth depth) w.scopes.all.size body).run.run
        ((newBlock i).after v) := by
    rw [visitBody, newBlock, run_bind, outcome_newScope, size]
  rw [← block] at lock
  refine lock.ended error_bind (fun j e => captureFlush_error named info info' G e)
    fun content content' same o o' worlds' => ?_
  generalize after : (visitAll (Recursion.ofDepth depth') i body).after w = w' at worlds'
  generalize after' : (visitBody (Recursion.ofDepth depth) i body).after v = v' at worlds'
  obtain ⟨v'', captured, outcome, size', other, found⟩ :=
    captureFlush_ok named info info' G fresh tame grouping some' sound' hi' o' after'
  obtain ⟨⟨soundB, -⟩, grows, -⟩ :=
    yields_visitAll (Recursion.produces_ofDepth true depth') fresh tame w _ ⟨sound, hi⟩ o
  obtain ⟨-, -, produced, -⟩ :=
    yields_visitBody (Recursion.produces_ofDepth true depth) fresh tame v _ ⟨sound', hi'⟩ o'
  obtain ⟨new, e, steps⟩ := produced.history
  rw [after] at soundB grows
  rw [after'] at e
  have groups : v'.groups.size = w'.groups.size := (worlds'.groups 0).symm
  rw [groups] at outcome size' found
  rw [outcome_bind, o, outcome]
  dsimp only
  rw [after]
  refine next content content' w' v'' captured o after same (fun avoids => found ?_)
    ⟨?_, fun m => ?_⟩
  · rw [e, List.map_append, steps]
    exact avoids
  · have some'' : 0 < w.scopes.all.size := Nat.lt_of_le_of_lt (Nat.zero_le i) hi
    refine (worlds'.scopes.regroup some'' (Nat.lt_of_lt_of_le some'' grows) fun j x g hg =>
      soundB.lt_of_mem_entry hg).of_sameBut ?_ other
    exact ⟨rfl, fun j => .refl _ _⟩
  · show shift w'.groups.size _ = _
    rw [shift_of_le (Nat.le_add_right _ m), size']
    omega

end CaptureFlush

/-- **Capturing and flushing some statements at once**, among other statements: both
evaluations come to an end, unless one is allowed too little depth, and in what they come to
the same statements have been captured and flushed at once. -/
theorem ended_visitAll {depth depth' : Nat} {first second : Prop}
    (fewer : depth' ≤ depth → first) (more : depth < depth' → second) (info info' : Info)
    {before after : List Node} (fresh : Node.freshAll true (before ++ (body ++ after)))
    (tame : Node.tameAll (before ++ (body ++ after))) (grouping : body.all Node.grouping)
    (some' : body ≠ []) {w v : World} (worlds : w.Renamed (.same (isKey name)) v)
    (sound : w.Sound true) (sound' : v.Sound true) (start : w.history = #[])
    (start' : v.history = #[]) (hi : i < w.scopes.all.size) :
    Ended first second
      (fun ns ns' => Node.Avoids (isKey name) (Node.stepsAll ns) →
        CapturedIn info info' name ns ns')
      ((visitAll (Recursion.ofDepth depth') i (before ++ (body ++ after))).outcome w)
      ((visitAll (Recursion.ofDepth (depth + 1)) i
        (before ++ (captureFlush info info' name body ++ after))).outcome v) := by
  rw [Node.freshAll_append, Node.freshAll_append] at fresh
  rw [Node.tameAll_append, Node.tameAll_append] at tame
  obtain ⟨freshA, freshB, freshC⟩ := fresh
  obtain ⟨tameA, tameB, tameC⟩ := tame
  have fewer' : depth' < depth + 1 → first := fun lt => fewer (Nat.le_of_lt_succ lt)
  have more' : depth + 1 < depth' → second := fun lt => more (Nat.lt_of_succ_lt lt)
  have size : w.scopes.all.size = v.scopes.all.size := worlds.scopes.size 0
  have hi' : i < v.scopes.all.size := size ▸ hi
  rw [visitAll_append, visitAll_append, visitAll_append, visitAll_append]
  simp only [bind_assoc, pure_bind]
  have lockA := (Recursion.lockstep_ofDepth (.same (isKey name)) depth' (depth + 1) fewer'
    more').visitAll freshA (fun n _ => .inl rfl : ∀ n ∈ before, Renaming.Visits _ i i n) w v worlds
  refine lockA.bind_ended fun a a' sameA oA oA' worldsA => ?_
  obtain ⟨⟨soundA, hiA⟩, growsA, producedA, -⟩ :=
    yields_visitAll (Recursion.produces_ofDepth true depth') freshA tameA w _ ⟨sound, hi⟩ oA
  obtain ⟨⟨soundA', -⟩, -, producedA', -⟩ :=
    yields_visitAll (Recursion.produces_ofDepth true (depth + 1)) freshA tameA v _ ⟨sound', hi'⟩ oA'
  refine ended_captureFlush named info info' _ (fun lt => fewer (Nat.le_of_lt lt)) more freshB
    tameB grouping some' worldsA soundA soundA' hiA
    fun b b' w' v' captured oB afterB sameB found worldsB => ?_
  obtain ⟨⟨soundB, -⟩, -, producedB, -⟩ := yields_visitAll
    (Recursion.produces_ofDepth true depth') freshB tameB _ _ ⟨soundA, hiA⟩ oB
  rw [afterB] at soundB producedB
  obtain ⟨all, -⟩ := grouping_of_visitAll depth' i grouping _ _ oB
  have here : i = shift ((visitAll (Recursion.ofDepth depth') i before).after w).scopes.all.size i :=
    (shift_of_lt (Nat.lt_of_lt_of_le hi growsA)).symm
  have lockC := (Recursion.lockstep_ofDepth (.insert _ (shift w'.groups.size) (0, 0) (isKey name))
    depth' (depth + 1) fewer' more').visitAll freshC (fun n _ => .inl here) w' v' worldsB
  refine lockC.bind_ended fun c c' sameC oC oC' _ => .ok fun avoids => ?_
  rw [Node.stepsAll_append, Node.stepsAll_append, Node.avoids_append, Node.avoids_append] at avoids
  obtain ⟨avoidsA, avoidsB, avoidsC⟩ := avoids
  -- no step is about the name, so nothing but the numbers of groups can differ
  have eA : a' = a := (Node.eq_renamedAll_of_avoids sameA avoidsA).trans (Node.renamedAll_id a)
  have eB : b' = b := (Node.eq_renamedAll_of_avoids sameB avoidsB).trans (Node.renamedAll_id b)
  have eC : c' = Node.renamedAll (shift w'.groups.size) (fun _ => false) c :=
    Node.eq_renamedAll_of_avoids sameC avoidsC
  subst eA eB
  obtain ⟨newA, historyA, stepsA⟩ := producedA.history
  obtain ⟨newA', historyA', stepsA'⟩ := producedA'.history
  obtain ⟨newB, historyB, stepsB⟩ := producedB.history
  rw [start, Array.toList_empty, List.nil_append] at historyA
  rw [start', Array.toList_empty, List.nil_append] at historyA'
  have captures : captured = [w'.groups.size] := found (by
    rw [historyA', stepsA']
    exact Node.avoids_append.2 ⟨avoidsA, avoidsB⟩)
  refine ⟨_, _, c, w'.groups.size, rfl, ?_, all, ?_⟩
  · rw [captures, eC]
    rfl
  · rw [← soundB.closed_eq, historyB, historyA, List.map_append, stepsA, stepsB,
      Node.stepsAll_append]
    rfl

end Evaluation
end Stylesheet

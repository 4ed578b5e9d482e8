/-
# Which nodes may end groups

The pass marks the last node that a rule, a query, a condition or a flush leaves outside every
rule.  Two things move nodes that have been marked before: a query leaves the queries inside it
after itself, and a flush leaves copies of what its groups hold.  So what one statement leaves
may end groups in other places than at its last node.

`Node.breaks` bounds these places without going through the pass.  It needs to know as much of
the groups (`Node.Explains`).  Nothing but queries in queries and flushes makes a difference
(`Node.breaks_rule`, `Node.breaks_media`).
-/

import Stylesheet.Proofs.Layout.Placement
import Stylesheet.Proofs.Node.Located

namespace Stylesheet

/-- Which of some nodes, one after the other, may end groups. -/
inductive Breaks where
  /-- There are no nodes. -/
  | absent
  /-- None of them. -/
  | nowhere
  /-- None but the last. -/
  | last
  /-- Any of them. -/
  | anywhere
  deriving DecidableEq

namespace Breaks

/-- What is known of nodes with others after them. -/
def append : Breaks → Breaks → Breaks
  | absent, b => b
  | b, absent => b
  | nowhere, b => b
  | _, _ => anywhere

instance : Append Breaks := ⟨append⟩

/-- What is known of nodes once the last of them has been marked, unless they are in a rule. -/
def marked (inRule : Bool) : Breaks → Breaks
  | nowhere => if inRule then nowhere else last
  | b => b

/-- Whether no node ends a group, if there are any. -/
def quiet : Breaks → Bool
  | absent | nowhere => true
  | _ => false

/-- Whether nodes may end groups as `ends` says of each. -/
def Allows : Breaks → List Bool → Prop
  | absent, ends => ends = []
  | nowhere, ends => ∀ e ∈ ends, e = false
  | last, ends => ends.Pairwise fun e _ => e = false
  | anywhere, _ => True

variable {a b : Breaks} {l m : List Bool}

/-- Nothing after some nodes leaves what is known of them. -/
theorem append_absent (b : Breaks) : b ++ absent = b := by
  cases b <;> rfl

/-- Of two quiet lists no node ends a group. -/
theorem quiet_append (h : a.quiet) (k : b.quiet) : (a ++ b).quiet := by
  revert h k
  cases a <;> cases b <;> decide

/-- In a rule nothing is marked. -/
theorem marked_inRule (b : Breaks) : b.marked true = b := by
  cases b <;> rfl

/-- Of quiet nodes, only the last ends a group once they are marked. -/
theorem marked_ne_anywhere (h : b.quiet) : b.marked false ≠ anywhere := by
  revert h
  cases b <;> decide

/-- Where there are no nodes, none ends a group. -/
theorem allows_nil (b : Breaks) : b.Allows [] := by
  cases b with
  | absent => rfl
  | nowhere => exact nofun
  | last => exact .nil
  | anywhere => trivial

namespace Allows

/-- What is allowed of two lists, one after the other. -/
theorem append (h : a.Allows l) (k : b.Allows m) : (a ++ b).Allows (l ++ m) := by
  have before (free : ∀ e ∈ l, e = false) (k : b.Allows m) : (nowhere ++ b).Allows (l ++ m) := by
    cases b with
    | absent =>
      cases k
      rwa [List.append_nil]
    | nowhere => exact List.forall_mem_append.2 ⟨free, k⟩
    | last =>
      refine List.pairwise_append.2 ⟨?_, k, fun e he _ _ => free e he⟩
      exact List.pairwise_of_forall_mem_list fun e he _ _ => free e he
    | anywhere => trivial
  cases a with
  | absent =>
    cases h
    exact k
  | nowhere => exact before h k
  | last | anywhere =>
    cases b with
    | absent =>
      cases k
      rwa [List.append_nil]
    | _ => trivial

/-- Fewer nodes are allowed. -/
theorem sublist (h : b.Allows m) (s : l.Sublist m) : b.Allows l := by
  cases b with
  | absent =>
    cases h
    exact List.sublist_nil.1 s
  | nowhere => exact fun e he => h e (s.subset he)
  | last => exact h.sublist s
  | anywhere => trivial

/-- Marked or not, the last node may end a group where it may if it is marked. -/
theorem marked_self (inRule : Bool) (h : b.Allows l) : (b.marked inRule).Allows l := by
  cases b with
  | nowhere =>
    cases inRule with
    | true => exact h
    | false => exact List.pairwise_of_forall_mem_list fun e he _ _ => h e he
  | _ => exact h

/-- The last of some nodes has been marked. -/
theorem set_last {e : Bool} (h : b.Allows (l ++ [e])) :
    (b.marked false).Allows (l ++ [true]) ∧ b.Allows (l ++ [false]) := by
  cases b with
  | absent => exact absurd h (List.append_ne_nil_of_right_ne_nil l (List.cons_ne_nil e []))
  | nowhere =>
    have free : ∀ f ∈ l, f = false := fun f hf => h f (List.mem_append_left _ hf)
    refine ⟨List.pairwise_append.2 ⟨?_, List.pairwise_singleton .., fun f hf _ _ => free f hf⟩, ?_⟩
    · exact List.pairwise_of_forall_mem_list fun f hf _ _ => free f hf
    · exact List.forall_mem_append.2 ⟨free, by simp⟩
  | last =>
    obtain ⟨inner, -, free⟩ := List.pairwise_append.1 h
    have free (f : Bool) (hf : f ∈ l) : f = false := free f hf e List.mem_cons_self
    exact ⟨List.pairwise_append.2 ⟨inner, List.pairwise_singleton .., fun f hf _ _ => free f hf⟩,
      List.pairwise_append.2 ⟨inner, List.pairwise_singleton .., fun f hf _ _ => free f hf⟩⟩
  | anywhere => exact ⟨trivial, trivial⟩

end Allows

/-- Whether a node of this kind is among all nodes, or among the queries. -/
def considers (queries : Bool) (k : Kind) : Bool :=
  !queries || k == .media

/-- A node of this kind that ends no group, among all nodes or among the queries. -/
def ofKind (queries : Bool) (k : Kind) : Breaks :=
  if considers queries k then nowhere else absent

/-- A node by itself ends no group. -/
theorem quiet_ofKind (queries : Bool) (k : Kind) : (ofKind queries k).quiet := by
  unfold ofKind
  split <;> rfl

end Breaks

namespace Node

open Breaks (considers ofKind)

variable (groups : GroupId → Bool → Breaks)

mutual

/-- Which of the nodes that a node leaves may end groups, or of the `queries` among them, if
the groups leave what `groups` says. -/
def breaks (inRule queries : Bool) : Node → Breaks
  | plain _ head cs =>
    match head with
    | .rule .. => (ofKind queries .rule ++ breaksAll true queries cs).marked inRule
    | .media .. => (ofKind queries .media ++ breaksAll inRule true cs).marked inRule
    | .supports .. => (ofKind queries .supports).marked inRule
    | .flush _ captured =>
      (captured.foldr (fun g b => groups g queries ++ b) .absent).marked inRule
    | .buffer _ | .extend .. => .absent
    | head => ofKind queries head.kind
  | cond .. => ofKind queries .cond

/-- Which of the nodes that some nodes leave may end groups. -/
def breaksAll (inRule queries : Bool) : List Node → Breaks
  | [] => .absent
  | n :: ns => n.breaks inRule queries ++ breaksAll inRule queries ns

end

/-- Which of the nodes that a group with this body holds may end groups: in a rule, the rule
is repeated around the body. -/
def held (inRule queries : Bool) (cs : List Node) : Breaks :=
  (if inRule then ofKind queries .rule else .absent) ++ breaksAll groups inRule queries cs

/-- Whether `groups` says of every group of a list what it holds, or nothing. -/
def Explains (bodies : List Body) : Prop :=
  ∀ b ∈ bodies, ∀ queries, groups b.group queries = .anywhere ∨
    groups b.group queries = held groups b.selector.isSome queries b.children

instance decidableExplains (bodies : List Body) : Decidable (Explains groups bodies) :=
  inferInstanceAs (Decidable (∀ b ∈ bodies, ∀ _, _ ∨ _))

variable {groups}

/-! ### Without flushes -/

mutual

/-- In a rule, nothing ends a group where there is no flush. -/
theorem quiet_breaks (queries : Bool) (n : Node) (h : ∀ m ∈ n.nodes, m.kind ≠ .flush) :
    (n.breaks groups true queries).quiet := by
  match n with
  | plain info head cs =>
    obtain ⟨here, inside⟩ := forall_nodes_plain.1 h
    cases head with
    | rule | media =>
      rw [breaks, Breaks.marked_inRule]
      exact Breaks.quiet_append (Breaks.quiet_ofKind _ _) (quiet_breaksAll _ cs inside)
    | supports =>
      rw [breaks, Breaks.marked_inRule]
      exact Breaks.quiet_ofKind _ _
    | flush => exact absurd rfl here
    | buffer | extend => rfl
    | _ => exact Breaks.quiet_ofKind _ _
  | cond .. => exact Breaks.quiet_ofKind _ _

/-- Without flushes, nodes in a rule end no group. -/
theorem quiet_breaksAll (queries : Bool) (ns : List Node)
    (h : ∀ n ∈ ns, ∀ m ∈ n.nodes, m.kind ≠ .flush) :
    (breaksAll groups true queries ns).quiet := by
  match ns with
  | [] => rfl
  | n :: ns =>
    exact Breaks.quiet_append (quiet_breaks queries n (h n List.mem_cons_self))
      (quiet_breaksAll queries ns fun m hm => h m (List.mem_cons_of_mem n hm))

end

/-- **A rule without flushes leaves one group**, whatever else is in it. -/
theorem breaks_rule {info : Info} {selector : Template} {resolved : Option (List String)}
    {cs : List Node} {queries : Bool} (h : ∀ n ∈ cs, ∀ m ∈ n.nodes, m.kind ≠ .flush) :
    (plain info (.rule selector resolved) cs).breaks groups false queries ≠ .anywhere := by
  have content : (ofKind queries .rule ++ breaksAll groups true queries cs).quiet :=
    Breaks.quiet_append (Breaks.quiet_ofKind _ _) (quiet_breaksAll queries cs h)
  exact Breaks.marked_ne_anywhere content

mutual

/-- No query is left where there is none and no flush. -/
theorem absent_breaks (inRule : Bool) (n : Node)
    (h : ∀ m ∈ n.nodes, m.kind ≠ .flush ∧ m.kind ≠ .media) :
    n.breaks groups inRule true = .absent := by
  match n with
  | plain info head cs =>
    obtain ⟨⟨flush, media⟩, inside⟩ := forall_nodes_plain.1 h
    cases head with
    | rule => rw [breaks, absent_breaksAll true cs inside]; rfl
    | media => exact absurd rfl media
    | flush => exact absurd rfl flush
    | _ => rfl
  | cond .. => rfl

/-- Without flushes and queries, no query is left. -/
theorem absent_breaksAll (inRule : Bool) (ns : List Node)
    (h : ∀ n ∈ ns, ∀ m ∈ n.nodes, m.kind ≠ .flush ∧ m.kind ≠ .media) :
    breaksAll groups inRule true ns = .absent := by
  match ns with
  | [] => rfl
  | n :: ns =>
    rw [breaksAll, absent_breaks inRule n (h n List.mem_cons_self),
      absent_breaksAll inRule ns fun m hm => h m (List.mem_cons_of_mem n hm)]
    rfl

end

/-- **A query without queries and flushes leaves one group**, whatever else is in it. -/
theorem breaks_media {info : Info} {query : Template} {resolved : Option String} {cs : List Node}
    {queries : Bool} (h : ∀ n ∈ cs, ∀ m ∈ n.nodes, m.kind ≠ .flush ∧ m.kind ≠ .media) :
    (plain info (.media query resolved) cs).breaks groups false queries ≠ .anywhere := by
  rw [breaks, absent_breaksAll false cs h, Breaks.append_absent]
  exact Breaks.marked_ne_anywhere (Breaks.quiet_ofKind ..)

/-- Which of some nodes end groups, or of the `queries` among them. -/
def groupEnds (queries : Bool) (ns : List Node) : List Bool :=
  (ns.filter fun n => considers queries n.kind).map (·.info.groupEnd)

end Node

end Stylesheet

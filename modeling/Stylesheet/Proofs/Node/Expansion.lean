/-
# What nodes may become

An evaluation replaces nodes by nodes.  `Node.Expands bodies ns ms` tells what is known of
the outcome without the values of expressions: a control directive becomes some of what is
inside it, an inclusion what one of the `bodies` of mixins becomes, and everything else
itself, with its texts resolved (`Head.Resolves`), or nothing.  Facts about the shape of an
evaluated tree are inductions on it.

The bodies are those of the mixins in a tree (`Node.mixinBodies`).
-/

import Stylesheet.Proofs.Node.Walk
import Stylesheet.Selector

namespace Stylesheet

/-- What an evaluation may make of a head that stays. -/
inductive Head.Resolves : Head → Head → Prop where
  | root : Resolves .root .root
  | rule (selector : Template) (old : Option (List String)) {selectors : List String}
      (some' : selectors ≠ []) :
      Resolves (.rule selector old) (.rule selector (some selectors))
  | declaration (name : Template) (value : Option Expr) (oldName oldValue : Option String)
      (nameText valueText : String) :
      Resolves (.declaration name value oldName oldValue)
        (.declaration name value (some nameText) (some valueText))
  | directive (prelude : Template) (old : Option String) (hasBlock : Bool) (text : String) :
      Resolves (.directive prelude old hasBlock) (.directive prelude (some text) hasBlock)
  | media (query : Template) (old : Option String) (text : String) :
      Resolves (.media query old) (.media query (some text))
  | supports (condition : Template) (old : Option String) (text : String) :
      Resolves (.supports condition old) (.supports condition (some text))
  | importSheet (uri : String) : Resolves (.importSheet uri) (.importSheet uri)
  | extend (selector : Template) (old : Option String) (text : String) :
      Resolves (.extend selector old) (.extend selector (some text))
  | comment (text : String) : Resolves (.comment text false) (.comment text false)
  | buffer (name resolved : BufferName) : Resolves (.buffer name) (.buffer resolved)
  | flush (name resolved : BufferName) (old captured : List GroupId) :
      Resolves (.flush name old) (.flush resolved captured)

namespace Head.Resolves

variable {h h' : Head}

/-- Resolving a head leaves its kind. -/
theorem kind_eq (r : h.Resolves h') : h'.kind = h.kind := by
  cases r <;> rfl

/-- Control directives, inclusions and definitions do not stay. -/
theorem not_control (r : h.Resolves h') : h.kind.isControl = false := by
  cases r <;> rfl

/-- Resolving a head leaves whether its node is entered. -/
theorem entered_eq (r : h.Resolves h') : h'.entered = h.entered := by
  cases r <;> rfl

/-- Resolving a head leaves what children suit it. -/
theorem suits_eq (r : h.Resolves h') (bare : Bool) (cs : List Node) :
    h'.suits bare cs = h.suits bare cs := by
  cases r <;> rfl

/-- All but flushes, which may be without a name, have their texts. -/
theorem settled (r : h.Resolves h') (other : h.kind ≠ .flush) : h'.settled := by
  cases r with
  | flush => exact (other rfl).elim
  | _ => rfl

end Head.Resolves

/-- What is evaluated with its node may have anything inside. -/
theorem Head.suits_of_entered {bare : Bool} {h : Head} {cs : List Node} (entered : h.entered)
    (suits : h.suits bare cs) (ms : List Node) : h.suits bare ms := by
  cases h with
  | root => exact suits
  | rule | media | supports | buffer => exact suits_of_hasBody rfl ms
  | directive => exact suits_of_hasBody (by exact entered) ms
  | _ => cases entered

/-- A rule has selectors. -/
theorem Selector.ne_nil_of_resolve {text : String} {parents : Option (List String)}
    {selectors : List String} (h : resolve text parents = .ok selectors) : selectors ≠ [] := by
  unfold resolve at h
  dsimp only at h
  by_cases missing : (split text).isEmpty
  · rw [if_pos missing] at h
    cases h
  · have found : split text ≠ [] := fun e => missing (List.isEmpty_iff.2 e)
    rw [if_neg missing] at h
    cases outer : parents.getD [] with
    | nil =>
      rw [outer] at h
      dsimp only at h
      split at h
      · cases h
      · exact Except.ok.inj h ▸ found
    | cons p ps =>
      rw [outer] at h
      rw [← Except.ok.inj h, List.flatMap_cons]
      exact fun e => found (List.map_eq_nil_iff.1 (List.append_eq_nil_iff.1 e).1)

namespace Node

/-- Nodes and what an evaluation may make of them, with these `bodies` of mixins. -/
inductive Expands (bodies : List Node → Prop) : List Node → List Node → Prop where
  | nil : Expands bodies [] []
  | append {ns ms ns' ms' : List Node} (first : Expands bodies ns ms)
      (rest : Expands bodies ns' ms') : Expands bodies (ns ++ ns') (ms ++ ms')
  /-- Whatever it is, it may leave nothing. -/
  | gone (n : Node) : Expands bodies [n] []
  /-- What is not gone into keeps what is inside it. -/
  | leaf {info info' : Info} {h h' : Head} {cs : List Node} (resolves : h.Resolves h')
      (leaf : h.entered = false) : Expands bodies [plain info h cs] [plain info' h' cs]
  | block {info info' : Info} {h h' : Head} {cs cs' : List Node} (resolves : h.Resolves h')
      (block : h.entered) (inner : Expands bodies cs cs') :
      Expands bodies [plain info h cs] [plain info' h' cs']
  /-- A loop goes round once more. -/
  | again {info : Info} {h : Head} {cs ms ms' : List Node} (loop : h.kind.isControl)
      (before : Expands bodies [plain info h cs] ms) (round : Expands bodies cs ms') :
      Expands bodies [plain info h cs] (ms ++ ms')
  | clause {info : Info} {test : Option Expr} {cs ms : List Node} {otherwise : Option Node}
      (holds : Expands bodies cs ms) : Expands bodies [cond info test cs otherwise] ms
  | otherwise {info : Info} {test : Option Expr} {cs ms : List Node} {n : Node}
      (fails : Expands bodies [n] ms) : Expands bodies [cond info test cs (some n)] ms
  | inclusion {info : Info} {name : String} {args : List Expr}
      {keywords : List (String × Expr)} {cs body ms : List Node} (known : bodies body)
      (inner : Expands bodies body ms) :
      Expands bodies [plain info (.inclusion name args keywords) cs] ms

mutual

/-- The bodies of the mixins in a tree. -/
def mixinBodies : Node → List (List Node)
  | plain _ h cs => if h.kind == .mixin then cs :: mixinBodiesAll cs else mixinBodiesAll cs
  | cond _ _ cs o => mixinBodiesAll cs ++ mixinBodiesOption o

/-- The bodies of the mixins in some trees. -/
def mixinBodiesAll : List Node → List (List Node)
  | [] => []
  | n :: ns => n.mixinBodies ++ mixinBodiesAll ns

/-- The bodies of the mixins in a clause that may be absent. -/
def mixinBodiesOption : Option Node → List (List Node)
  | none => []
  | some n => n.mixinBodies

end

mutual

/-- A tree and all that is in it. -/
def nodes : Node → List Node
  | plain i h cs => plain i h cs :: nodesAll cs
  | cond i t cs o => cond i t cs o :: (nodesAll cs ++ nodesOption o)

/-- Some trees and all that is in them. -/
def nodesAll : List Node → List Node
  | [] => []
  | n :: ns => n.nodes ++ nodesAll ns

/-- A clause that may be absent and all that is in it. -/
def nodesOption : Option Node → List Node
  | none => []
  | some n => n.nodes

end

/-- The nodes in a list are the nodes in its members. -/
theorem mem_nodesAll {ns : List Node} {m : Node} : m ∈ nodesAll ns ↔ ∃ n ∈ ns, m ∈ n.nodes := by
  induction ns with
  | nil => simp [nodesAll]
  | cons n ns ih => simp [nodesAll, ih]

/-- The mixin bodies in a list are those in its members. -/
theorem mem_mixinBodiesAll {ns : List Node} {b : List Node} :
    b ∈ mixinBodiesAll ns ↔ ∃ n ∈ ns, b ∈ n.mixinBodies := by
  induction ns with
  | nil => simp [mixinBodiesAll]
  | cons n ns ih => simp [mixinBodiesAll, ih]

/-- The mixin bodies in a clause that may be absent. -/
theorem mem_mixinBodiesOption {o : Option Node} {b : List Node} :
    b ∈ mixinBodiesOption o ↔ ∃ n ∈ o, b ∈ n.mixinBodies := by
  cases o <;> simp [mixinBodiesOption]

/-- The mixin bodies in the children of a node are in it. -/
theorem mixinBodiesAll_subset (i : Info) (h : Head) (cs : List Node) :
    mixinBodiesAll cs ⊆ (plain i h cs).mixinBodies := by
  rw [mixinBodies]
  split
  · exact List.subset_cons_self cs _
  · exact List.Subset.refl _

end Node
end Stylesheet

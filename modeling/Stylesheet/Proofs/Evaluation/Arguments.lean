/-
# How arguments are bound

The parameters of a mixin or a function get their values from the left: by position, by name,
or from their defaults (`Evaluation.Supplied`, `Evaluation.Assigned`).  A default is evaluated in
the scope of the invocation as it is then.  That has no functions, and a function that is called
writes to the scopes around the one it closes over only, so what is evaluated there leaves the
scope as it is (`Recursion.still_ofDepth`): a default sees the parameters before it, and else what
the scope of the definition has (`Evaluation.Assigned.get_scope`).

Binding succeeds exactly if every parameter gets one value and no argument is left over
(`Evaluation.bind_spec`).
-/

import Mathlib.Data.List.Induction
import Stylesheet.Proofs.Evaluation.Frame

namespace Stylesheet

open Eval

/-! ### Expressions in a scope without functions -/

/-- In a store that operations make, a scope without functions is left as it is. -/
def Eval.Still (b : ScopeId) (w w' : World) : Prop :=
  w.scopes.Reachable → (b : Nat) < w.scopes.all.size → (w.scopes.get b).functions = [] →
    w'.scopes.Reachable ∧ w.scopes.all.size ≤ w'.scopes.all.size ∧
      w'.scopes.get b = w.scopes.get b

instance (b : ScopeId) : IsPreorder World (Still b) where
  refl w hw _ _ := ⟨hw, Nat.le_refl _, rfl⟩
  trans w w' w'' h k hw hb none := by
    obtain ⟨hw', grows, same⟩ := h hw hb none
    obtain ⟨hw'', grows', same'⟩ := k hw' (Nat.lt_of_lt_of_le hb grows) (same ▸ none)
    exact ⟨hw'', grows.trans grows', same'.trans same⟩

/-- What a scope with a parent does not have itself is found from there. -/
theorem Scopes.WellFormed.var?_eq {s : Scopes} (hs : s.WellFormed) {b parent : ScopeId}
    {above : List ScopeId} (around : (s.get b).ancestors = parent :: above) (name : String) :
    s.var? b name =
      ((s.get b).vars.get? (Name.normalize name)).or (s.var? parent name) := by
  have chain : s.chain parent = parent :: above := by
    rcases hs.ancestors b with none | ⟨p, -, -, e⟩
    · rw [none] at around
      cases around
    · rw [around] at e
      obtain ⟨rfl, -⟩ := List.cons.inj e
      exact e.symm
  rw [var?, var?, find?, find?, Scopes.chain, around, chain, List.findSome?_cons]
  cases (s.get b).vars.get? (Name.normalize name) <;> rfl

/-- **What is evaluated in a scope without functions leaves it as it is**, its variables and
their values among it. -/
theorem Recursion.still_ofDepth (n : Nat) (b : ScopeId) (e : Expr) :
    Steps (Still b) ((ofDepth n).eval b e) := by
  intro w hw hb none
  obtain ⟨known, frame, spares⟩ := Evaluation.spares_eval (framed_ofDepth n) ⟨hw, hb⟩ e
  exact ⟨known.1, frame.grows, spares none⟩

/-! ### Tables of variables -/

namespace Table

variable {α : Type}

/-- A table has a value for the names in it. -/
theorem isSome_get?_iff (t : Table α) (name : String) : (t.get? name).isSome ↔ name ∈ t.names := by
  induction t with
  | nil => simp [names]
  | cons e t ih =>
    obtain ⟨k, v⟩ := e
    rw [get?_cons, names, List.map_cons, List.mem_cons]
    by_cases here : name = k
    · simp [here]
    · rw [if_neg here, ih, or_iff_right here, names]

/-- A name that is not in a table is put at its end. -/
theorem set_of_notMem {t : Table α} {name : String} (h : name ∉ t.names) (v : α) :
    t.set name v = t ++ [(name, v)] := by
  induction t with
  | nil => rfl
  | cons e t ih =>
    obtain ⟨k, u⟩ := e
    rw [names, List.map_cons, List.mem_cons, not_or] at h
    rw [set, if_neg (Ne.symm h.1), ih h.2]
    rfl

/-- The table of some names that are given values one after the other. -/
def ofPairs (names : List String) (values : List α) : Table α :=
  (names.zip values).foldl (fun t e => t.set e.1 e.2) []

/-- One more name and value are one more entry. -/
theorem ofPairs_concat {names : List String} {values : List α} (h : names.length = values.length)
    (name : String) (v : α) :
    ofPairs (names ++ [name]) (values ++ [v]) = (ofPairs names values).set name v := by
  rw [ofPairs, List.zip_append h, List.foldl_append]
  rfl

/-- It has these names and no others. -/
theorem isSome_ofPairs_iff {names : List String} {values : List α}
    (h : names.length = values.length) (name : String) :
    ((ofPairs names values).get? name).isSome ↔ name ∈ names := by
  induction names using List.reverseRecOn generalizing values with
  | nil => simp [ofPairs]
  | append_singleton names k ih =>
    obtain ⟨values, v, rfl⟩ :=
      (List.eq_nil_or_concat' values).resolve_left (by rintro rfl; simp at h)
    have h : names.length = values.length := by simpa using h
    rw [ofPairs_concat h, get?_set, List.mem_append, List.mem_singleton]
    split
    · simp [*]
    · simp [ih h, *]

/-- Without a name twice it is the pairs. -/
theorem ofPairs_of_nodup {names : List String} {values : List α}
    (h : names.length = values.length) (nodup : names.Nodup) :
    ofPairs names values = names.zip values := by
  induction names using List.reverseRecOn generalizing values with
  | nil => rfl
  | append_singleton names k ih =>
    obtain ⟨values, v, rfl⟩ :=
      (List.eq_nil_or_concat' values).resolve_left (by rintro rfl; simp at h)
    have h : names.length = values.length := by simpa using h
    obtain ⟨nodup, -, apart⟩ := List.nodup_append.1 nodup
    have new : k ∉ Table.names (names.zip values) := by
      rw [Table.names, List.map_fst_zip (by omega)]
      exact fun mem => apart k mem k (by simp) rfl
    rw [ofPairs_concat h, ih h nodup, set_of_notMem new, List.zip_append h]
    rfl

end Table

/-! ### Keywords -/

namespace Evaluation

/-- The value that is given for a name, the last one of those with the name. -/
def keywordValue? (keywords : List (String × Value)) (name : String) : Option Value :=
  (keywords.reverse.find? fun k => Name.normalize k.1 = name).map Prod.snd

/-- The last keyword of a name, in any spelling, has the value. -/
theorem get?_normalizeKeywords (keywords : List (String × Value)) (name : String) :
    (normalizeKeywords keywords).get? name = keywordValue? keywords name := by
  induction keywords using List.reverseRecOn with
  | nil => rfl
  | append_singleton keywords k ih =>
    have last : normalizeKeywords (keywords ++ [k]) =
        (normalizeKeywords keywords).set (Name.normalize k.1) k.2 := by
      rw [normalizeKeywords, List.foldl_append]
      rfl
    rw [last, Table.get?_set, keywordValue?, List.reverse_append, List.reverse_singleton,
      List.singleton_append, List.find?_cons]
    by_cases here : Name.normalize k.1 = name
    · simp [here]
    · simpa [here, Ne.symm here, keywordValue?] using ih

/-- The normalized names of some keywords. -/
def keywordNames (keywords : List (String × Value)) : List String :=
  keywords.map fun k => Name.normalize k.1

/-- A name has a keyword value if it is the name of a keyword. -/
theorem isSome_keywordValue?_iff (keywords : List (String × Value)) (name : String) :
    (keywordValue? keywords name).isSome ↔ name ∈ keywordNames keywords := by
  simp [keywordValue?, keywordNames, List.find?_isSome]

/-- A fold that starts with a member of a list and goes on with members ends with one. -/
theorem foldl_mem {f : Option String → String → Option String} (start : ∀ k, f none k = some k)
    (step : ∀ l k, f (some l) k = some l ∨ f (some l) k = some k) (ks : List String) :
    (ks = [] ∧ ks.foldl f none = none) ∨ ∃ k ∈ ks, ks.foldl f none = some k := by
  induction ks using List.reverseRecOn with
  | nil => exact .inl ⟨rfl, rfl⟩
  | append_singleton ks k ih =>
    rw [List.foldl_append, List.foldl_cons, List.foldl_nil]
    rcases ih with ⟨rfl, e⟩ | ⟨l, hl, e⟩
    · exact .inr ⟨k, by simp, by rw [e, start]⟩
    · rw [e]
      rcases step l k with e | e
      · exact .inr ⟨l, List.mem_append_left _ hl, e⟩
      · exact .inr ⟨k, by simp, e⟩

/-- What is unknown is one of the keywords that are no parameters. -/
theorem unknownKeyword?_spec (keywords : Table Value) (params : List String) :
    match unknownKeyword? keywords params with
    | some k => k ∈ keywords.names ∧ k ∉ params
    | none => ∀ name ∈ keywords.names, name ∈ params := by
  have least : ((keywords.names.filter fun k => !params.contains k) = [] ∧
      unknownKeyword? keywords params = none) ∨
      ∃ k ∈ keywords.names.filter fun k => !params.contains k,
        unknownKeyword? keywords params = some k := by
    refine foldl_mem (fun k => rfl) (fun l k => ?_) _
    dsimp only
    split <;> simp
  rcases least with ⟨none, e⟩ | ⟨k, hk, e⟩
  · rw [e]
    intro name hn
    simpa using List.filter_eq_nil_iff.1 none name hn
  · rw [e]
    simpa using List.mem_filter.1 hk

/-- The table of the keywords has their names. -/
theorem mem_names_normalizeKeywords (keywords : List (String × Value)) (name : String) :
    name ∈ (normalizeKeywords keywords).names ↔ name ∈ keywordNames keywords := by
  rw [← Table.isSome_get?_iff, get?_normalizeKeywords, isSome_keywordValue?_iff]

/-! ### Values of parameters -/

/-- The name of a parameter. -/
def paramName (p : Parameter) : String :=
  Name.normalize p.1

section

variable (r : Recursion) (d : Definition) (args : List Value) (keywords : List (String × Value))
  (scope : ScopeId)

/-- Which value the parameter of a place gets in a world, and the world that is left behind. -/
inductive Supplied (i : Nat) (p : Parameter) (w : World) : Value → World → Prop
  /-- The argument of the place. -/
  | position {a : Value} (given : args[i]? = some a)
    (unnamed : keywordValue? keywords (paramName p) = none) : Supplied i p w a w
  /-- The last argument of the name. -/
  | keyword {v : Value} (left : args.length ≤ i)
    (named : keywordValue? keywords (paramName p) = some v) : Supplied i p w v w
  /-- The value of the default in the scope of the invocation. -/
  | default {e : Expr} {v : Value} (left : args.length ≤ i)
    (unnamed : keywordValue? keywords (paramName p) = none) (has : p.2 = some e)
    (value : (r.eval scope e).outcome w = .ok v) : Supplied i p w v ((r.eval scope e).after w)

/-- Why the parameter of a place gets no value in a world. -/
inductive Refused (i : Nat) (p : Parameter) (w : World) : Interrupt → Prop
  | repeated (given : i < args.length) (named : paramName p ∈ keywordNames keywords) :
    Refused i p w (.failure (.ofCause (.repeatedArgument d.what d.name (paramName p))))
  | missing (left : args.length ≤ i) (unnamed : keywordValue? keywords (paramName p) = none)
    (none : p.2 = none) :
    Refused i p w (.failure (.ofCause (.missingArgument d.what d.name (paramName p))))
  /-- The interrupt of a default. -/
  | default {e : Expr} {why : Interrupt} (left : args.length ≤ i)
    (unnamed : keywordValue? keywords (paramName p) = none) (has : p.2 = some e)
    (interrupted : (r.eval scope e).outcome w = .error why) : Refused i p w why

/-- Which values some parameters have got from the left since a world, and the world after
that. -/
inductive Assigned (w₀ : World) : List Parameter → List Value → World → Prop
  | nil : Assigned w₀ [] [] w₀
  | concat {params : List Parameter} {values : List Value} {p : Parameter} {v : Value}
    {w w' : World} (before : Assigned w₀ params values w)
    (given : Supplied r args keywords scope params.length p w v w') :
    Assigned w₀ (params ++ [p]) (values ++ [v])
      { w' with scopes := w'.scopes.setLocalVar scope (paramName p) v }

end

variable {r : Recursion} {d : Definition} {args : List Value} {keywords : List (String × Value)}
  {scope : ScopeId} {w₀ w : World} {params before after : List Parameter} {p : Parameter}
  {values : List Value}

/-- What an argument comes to is what `Supplied` tells, and if there is nothing for the parameter it
fails for that. -/
theorem argument_spec (r : Recursion) (d : Definition) (args : List Value)
    (keywords : List (String × Value)) (scope : ScopeId) (i : Nat) (p : Parameter) (w : World) :
    match (argument r d scope (normalizeKeywords keywords) p (args.drop i)).outcome w with
    | .ok v => Supplied r args keywords scope i p w v
        ((argument r d scope (normalizeKeywords keywords) p (args.drop i)).after w)
    | .error why => Refused r d args keywords scope i p w why := by
  unfold argument
  extract_lets key
  have given : (normalizeKeywords keywords).get? key = keywordValue? keywords (paramName p) :=
    get?_normalizeKeywords keywords _
  rw [given]
  cases e : args.drop i with
  | nil =>
    have left : args.length ≤ i := List.drop_eq_nil_iff.1 e
    cases named : keywordValue? keywords (paramName p) with
    | some v => exact .keyword left named
    | none =>
      cases has : p.2 with
      | none => exact .missing left named has
      | some e =>
        dsimp only
        cases value : (r.eval scope e).outcome w with
        | ok v => exact .default left named has value
        | error why => exact .default left named has value
  | cons a rest =>
    have given : args[i]? = some a := by
      have first := congrArg List.head? e
      rwa [List.head?_drop] at first
    cases named : keywordValue? keywords (paramName p) with
    | none => exact .position given named
    | some v =>
      refine .repeated (List.getElem?_eq_some_iff.1 given).1 ?_
      rw [← isSome_keywordValue?_iff, named]
      rfl

/-- **How some parameters are bound** after those before them. -/
theorem bindParams_spec (d : Definition)
    (before : Assigned r args keywords scope w₀ params values w) (rest : List Parameter) :
    match (bindParams r d scope (normalizeKeywords keywords) rest
      (args.drop params.length)).outcome w with
    | .ok () => ∃ values', Assigned r args keywords scope w₀ (params ++ rest) values'
        ((bindParams r d scope (normalizeKeywords keywords) rest
          (args.drop params.length)).after w)
    | .error why => ∃ mid p after values' w', rest = mid ++ p :: after ∧
        Assigned r args keywords scope w₀ (params ++ mid) values' w' ∧
        Refused r d args keywords scope (params ++ mid).length p w' why := by
  induction rest generalizing params values w with
  | nil => exact ⟨values, by rw [List.append_nil]; exact before⟩
  | cons p rest ih =>
    have here := argument_spec r d args keywords scope params.length p w
    rw [bindParams, outcome_bind, after_bind]
    cases e : (argument r d scope (normalizeKeywords keywords) p
        (args.drop params.length)).outcome w with
    | error why =>
      rw [e] at here
      exact ⟨[], p, rest, values, w, rfl, by rwa [List.append_nil], by rwa [List.append_nil]⟩
    | ok v =>
      rw [e] at here
      have others := ih (before.concat here)
      dsimp only
      rw [outcome_bind, after_bind, outcome_modifyScopes, after_modifyScopes, List.tail_drop]
      rw [List.length_append, List.length_singleton, paramName] at others
      generalize (bindParams r d scope (normalizeKeywords keywords) rest
        (args.drop (params.length + 1))).outcome _ = o at others ⊢
      cases o with
      | ok _ => simpa using others
      | error why =>
        obtain ⟨mid, q, after, values', w', rfl, assigned, refused⟩ := others
        exact ⟨p :: mid, q, after, values', w', rfl, by simpa using assigned,
          by simpa using refused⟩

/-! ### One way to bind -/

/-- A parameter is supplied in one way only. -/
theorem Supplied.unique {i : Nat} {v v' : Value} {w' w'' : World}
    (h : Supplied r args keywords scope i p w v w')
    (h' : Supplied r args keywords scope i p w v' w'') : v = v' ∧ w' = w'' := by
  cases h with
  | position given unnamed =>
    have less := (List.getElem?_eq_some_iff.1 given).1
    cases h' with
    | position given' => exact ⟨Option.some.inj (given.symm.trans given'), rfl⟩
    | keyword left | default left => omega
  | keyword left named =>
    cases h' with
    | position given => exact absurd (List.getElem?_eq_some_iff.1 given).1 (by omega)
    | keyword _ named' => exact ⟨Option.some.inj (named.symm.trans named'), rfl⟩
    | default _ unnamed =>
      rw [named] at unnamed
      cases unnamed
  | default left unnamed has value =>
    cases h' with
    | position given => exact absurd (List.getElem?_eq_some_iff.1 given).1 (by omega)
    | keyword _ named =>
      rw [named] at unnamed
      cases unnamed
    | default _ _ has' value' =>
      cases has.symm.trans has'
      cases value.symm.trans value'
      exact ⟨rfl, rfl⟩

/-- A name that no keyword has is without a keyword value. -/
theorem mem_keywordNames_iff {name : String} :
    name ∈ keywordNames keywords ↔ keywordValue? keywords name ≠ none := by
  rw [← isSome_keywordValue?_iff, Option.isSome_iff_ne_none]

/-- A parameter that gets a value is not refused. -/
theorem Supplied.not_refused {i : Nat} {v : Value} {w' : World} {why : Interrupt}
    (h : Supplied r args keywords scope i p w v w') :
    ¬Refused r d args keywords scope i p w why := by
  intro refused
  cases h with
  | position given unnamed =>
    have less := (List.getElem?_eq_some_iff.1 given).1
    cases refused with
    | repeated _ named => exact mem_keywordNames_iff.1 named unnamed
    | missing left | default left => omega
  | keyword left named =>
    cases refused with
    | repeated given => omega
    | missing _ unnamed | default _ unnamed =>
      rw [named] at unnamed
      cases unnamed
  | default left unnamed has value =>
    cases refused with
    | repeated given => omega
    | missing _ _ none =>
      rw [has] at none
      cases none
    | default _ _ has' interrupted =>
      cases has.symm.trans has'
      rw [value] at interrupted
      cases interrupted

/-- Every parameter has got a value. -/
theorem Assigned.length_eq (h : Assigned r args keywords scope w₀ params values w) :
    params.length = values.length := by
  induction h with
  | nil => rfl
  | concat _ _ ih => simp [ih]

/-- What the last of some parameters has got. -/
theorem Assigned.last (h : Assigned r args keywords scope w₀ (params ++ [p]) values w) :
    ∃ values' v w₁ w₂, values = values' ++ [v] ∧
      w = { w₂ with scopes := w₂.scopes.setLocalVar scope (paramName p) v } ∧
      Assigned r args keywords scope w₀ params values' w₁ ∧
      Supplied r args keywords scope params.length p w₁ v w₂ := by
  generalize e : params ++ [p] = ps at h
  cases h with
  | nil => simp at e
  | concat before given =>
    obtain ⟨rfl, same⟩ := List.append_inj' e rfl
    cases same
    exact ⟨_, _, _, _, rfl, rfl, before, given⟩

/-- What one of some parameters has got. -/
theorem Assigned.at (h : Assigned r args keywords scope w₀ (before ++ p :: after) values w) :
    ∃ values' v more w₁ w₂, values = values' ++ v :: more ∧
      Assigned r args keywords scope w₀ before values' w₁ ∧
      Supplied r args keywords scope before.length p w₁ v w₂ := by
  induction after using List.reverseRecOn generalizing values w with
  | nil =>
    obtain ⟨values', v, w₁, w₂, rfl, -, assigned, given⟩ := h.last
    exact ⟨values', v, [], w₁, w₂, rfl, assigned, given⟩
  | append_singleton after q ih =>
    rw [← List.cons_append, ← List.append_assoc] at h
    obtain ⟨_, u, _, _, rfl, -, assigned, -⟩ := h.last
    obtain ⟨values', v, more, w₁, w₂, rfl, assigned, given⟩ := ih assigned
    exact ⟨values', v, more ++ [u], w₁, w₂, by simp, assigned, given⟩

/-- **Some parameters are bound in one way only.** -/
theorem Assigned.unique {values' : List Value} {w' : World}
    (h : Assigned r args keywords scope w₀ params values w)
    (h' : Assigned r args keywords scope w₀ params values' w') : values = values' ∧ w = w' := by
  induction h generalizing values' w' with
  | nil =>
    generalize e : ([] : List Parameter) = ps at h'
    cases h' with
    | nil => exact ⟨rfl, rfl⟩
    | concat => simp at e
  | concat _ given ih =>
    obtain ⟨_, _, _, _, rfl, rfl, assigned, given'⟩ := h'.last
    obtain ⟨rfl, rfl⟩ := ih assigned
    obtain ⟨rfl, rfl⟩ := given.unique given'
    exact ⟨rfl, rfl⟩

/-- Of some parameters that have got values, none was refused. -/
theorem Assigned.not_refused_at {values' : List Value} {w' : World} {why : Interrupt}
    (all : Assigned r args keywords scope w₀ (before ++ p :: after) values' w')
    (assigned : Assigned r args keywords scope w₀ before values w) :
    ¬Refused r d args keywords scope before.length p w why := by
  obtain ⟨_, _, _, _, _, -, assigned', given⟩ := all.at
  obtain ⟨-, rfl⟩ := assigned.unique assigned'
  exact given.not_refused

/-- Parameters are bound from the left up to one that is refused, so no other one is. -/
theorem Assigned.refused_unique {before' after' : List Parameter} {q : Parameter}
    {values' : List Value} {w' : World} {why why' : Interrupt}
    (assigned : Assigned r args keywords scope w₀ before values w)
    (refused : Refused r d args keywords scope before.length p w why)
    (assigned' : Assigned r args keywords scope w₀ before' values' w')
    (refused' : Refused r d args keywords scope before'.length q w' why')
    (same : before ++ p :: after = before' ++ q :: after') : before = before' ∧ p = q := by
  rcases List.append_eq_append_iff.1 same with ⟨between, rfl, e⟩ | ⟨between, rfl, e⟩
  · cases between with
    | nil =>
      cases e
      simp
    | cons _ between =>
      cases e
      exact absurd refused (assigned'.not_refused_at assigned)
  · cases between with
    | nil =>
      cases e
      simp
    | cons _ between =>
      cases e
      exact absurd refused' (assigned.not_refused_at assigned')

/-! ### The scope of an invocation -/

/-- Whatever supplies a parameter leaves the scope of the call as it is. -/
theorem Supplied.still {n i : Nat} {v : Value} {w' : World}
    (h : Supplied (.ofDepth n) args keywords scope i p w v w') : Still scope w w' := by
  cases h with
  | position | keyword => exact refl_of (Still scope) w
  | @default e _ _ _ _ _ => exact Recursion.still_ofDepth n scope e w

/-- **What the scope of an invocation has** when some parameters are bound: their variables, and
else what it had. -/
theorem Assigned.get_scope {n : Nat}
    (h : Assigned (.ofDepth n) args keywords scope w₀ params values w)
    (reachable : w₀.scopes.Reachable) (there : (scope : Nat) < w₀.scopes.all.size)
    (functions : (w₀.scopes.get scope).functions = [])
    (vars : (w₀.scopes.get scope).vars = []) :
    w.scopes.Reachable ∧ (scope : Nat) < w.scopes.all.size ∧
      w.scopes.get scope =
        { w₀.scopes.get scope with vars := .ofPairs (params.map paramName) values } := by
  induction h with
  | nil =>
    refine ⟨reachable, there, ?_⟩
    change w₀.scopes.get scope = { w₀.scopes.get scope with vars := [] }
    rw [← vars]
  | @concat params values p v w w' before given ih =>
    obtain ⟨hw, hs, same⟩ := ih
    obtain ⟨hw', grows, same'⟩ := given.still hw hs (by rw [same]; exact functions)
    have hs' : (scope : Nat) < w'.scopes.all.size := Nat.lt_of_lt_of_le hs grows
    have length : (params.map paramName).length = values.length := by
      rw [List.length_map, before.length_eq]
    refine ⟨hw'.setLocalVar scope _ v, by simpa [Scopes.setLocalVar] using hs', ?_⟩
    rw [Scopes.setLocalVar, Scopes.get_modify_self hs', same', same, List.map_append,
      List.map_singleton, Table.ofPairs_concat length, paramName, Name.normalize_normalize]

/-! ### Binding -/

section

variable (r : Recursion) (d : Definition) (args : List Value) (keywords : List (String × Value))
  (scope : ScopeId) (w₀ : World)

/-- Whether the arguments of a call fit the parameters of a definition, in a scope of an
invocation in a world. -/
structure Bindable : Prop where
  /-- There are no more arguments than parameters. -/
  few : args.length ≤ d.params.length
  /-- Every name is one of a parameter. -/
  known : ∀ name ∈ keywordNames keywords, name ∈ d.params.map paramName
  /-- No parameter has an argument both by position and by name. -/
  once : ∀ p ∈ d.params.take args.length, paramName p ∉ keywordNames keywords
  /-- All others have one by name, or a default that has a value once those before it are
  bound. -/
  others : ∀ before p after, d.params = before ++ p :: after → args.length ≤ before.length →
    paramName p ∈ keywordNames keywords ∨ ∃ e values w v, p.2 = some e ∧
      Assigned r args keywords scope w₀ before values w ∧ (r.eval scope e).outcome w = .ok v

/-- Why the arguments of a call do not fit. -/
inductive Unbound : Interrupt → Prop
  | tooMany (many : d.params.length < args.length) :
    Unbound (.failure (.ofCause (.tooManyArguments d.what d.name d.params.length args.length)))
  | unknown {name : String} (named : name ∈ keywordNames keywords)
    (other : name ∉ d.params.map paramName) :
    Unbound (.failure (.ofCause (.unknownArgument d.what d.name name)))
  /-- A parameter is refused after those before it are bound. -/
  | refused {before after : List Parameter} {p : Parameter} {values : List Value} {w : World}
    {why : Interrupt} (few : args.length ≤ d.params.length)
    (known : ∀ name ∈ keywordNames keywords, name ∈ d.params.map paramName)
    (split : d.params = before ++ p :: after)
    (assigned : Assigned r args keywords scope w₀ before values w)
    (refused : Refused r d args keywords scope before.length p w why) : Unbound why

end

/-- **How arguments are bound**: there are not too many, every keyword names a parameter, and each
parameter is assigned what supplies it; or which of these fails. -/
theorem bindArguments_spec (r : Recursion) (d : Definition) (args : List Value)
    (keywords : List (String × Value)) (scope : ScopeId) (w : World) :
    match (bindArguments r d scope args keywords).outcome w with
    | .ok () => args.length ≤ d.params.length ∧
        (∀ name ∈ keywordNames keywords, name ∈ d.params.map paramName) ∧
        ∃ values, Assigned r args keywords scope w d.params values
          ((bindArguments r d scope args keywords).after w)
    | .error why => Unbound r d args keywords scope w why := by
  unfold bindArguments
  extract_lets table names
  have unknown := unknownKeyword?_spec table names
  simp only [table, mem_names_normalizeKeywords] at unknown
  have length : names.length = d.params.length := List.length_map _
  rw [length]
  by_cases many : d.params.length < args.length
  · rw [if_pos many]
    exact .tooMany many
  · rw [if_neg many]
    cases e : unknownKeyword? table names with
    | some k =>
      simp only [table] at e
      rw [e] at unknown
      exact .unknown unknown.1 unknown.2
    | none =>
      simp only [table] at e
      rw [e] at unknown
      have start : Assigned r args keywords scope w [] [] w := .nil
      have bound := bindParams_spec d start d.params
      dsimp only
      rw [List.length_nil, List.drop_zero] at bound
      generalize (bindParams r d scope table d.params args).outcome w = o at bound ⊢
      cases o with
      | ok _ => exact ⟨Nat.not_lt.1 many, unknown, bound⟩
      | error why =>
        obtain ⟨before, p, after, values, w', split, assigned, refused⟩ := bound
        exact .refused (Nat.not_lt.1 many) unknown split assigned refused

/-- A call that comes to an end has made a scope in which the arguments are bound. -/
theorem bind_cases (r : Recursion) (d : Definition) (args : List Value)
    (keywords : List (String × Value)) (w : World) :
    match (bind r d args keywords).outcome w with
    | .ok scope => scope = w.scopes.all.size ∧ args.length ≤ d.params.length ∧
        (∀ name ∈ keywordNames keywords, name ∈ d.params.map paramName) ∧
        ∃ values, Assigned r args keywords scope ((newScope d.scope true).after w) d.params values
          ((bind r d args keywords).after w)
    | .error why => Unbound r d args keywords w.scopes.all.size ((newScope d.scope true).after w)
        why := by
  have spec := bindArguments_spec r d args keywords w.scopes.all.size
    ((newScope d.scope true).after w)
  unfold bind
  rw [outcome_bind, after_bind, outcome_newScope]
  dsimp only
  rw [outcome_bind, after_bind]
  generalize (bindArguments r d w.scopes.all.size args keywords).outcome _ = o at spec ⊢
  cases o with
  | ok _ => exact ⟨rfl, spec⟩
  | error why => exact spec

/-- Whether an outcome is a failure for an argument. -/
def ArgumentFailure {α : Type} (outcome : Except Interrupt α) : Prop :=
  ∃ cause, outcome = .error (.failure (.ofCause cause)) ∧ cause.category = .argument

/-- A failure that comes of no default is one for an argument. -/
theorem Unbound.argumentFailure {α : Type} {why : Interrupt}
    (h : Unbound r d args keywords scope w₀ why)
    (noDefault : ∀ before p after e values w, args.length ≤ d.params.length →
      (∀ name ∈ keywordNames keywords, name ∈ d.params.map paramName) →
      d.params = before ++ p :: after → Assigned r args keywords scope w₀ before values w →
      args.length ≤ before.length → keywordValue? keywords (paramName p) = none → p.2 = some e →
      (r.eval scope e).outcome w ≠ .error why) :
    ArgumentFailure (.error why : Except Interrupt α) := by
  cases h with
  | tooMany | unknown => exact ⟨_, rfl, rfl⟩
  | refused few known split assigned refused =>
    cases refused with
    | repeated | missing => exact ⟨_, rfl, rfl⟩
    | default left unnamed has interrupted =>
      exact absurd interrupted (noDefault _ _ _ _ _ _ few known split assigned left unnamed has)

/-- Parameters can be bound only if none of those with an argument by position has one by name. -/
theorem Assigned.once (h : Assigned r args keywords scope w₀ before values w)
    (split : d.params = before ++ after) (left : args.length ≤ before.length) :
    ∀ p ∈ d.params.take args.length, paramName p ∉ keywordNames keywords := by
  intro p hp named
  rw [split, List.take_append_of_le_length left] at hp
  obtain ⟨i, less, rfl⟩ := List.mem_take_iff_getElem.1 hp
  have place : i < before.length := by omega
  rw [← List.take_append_drop i before, List.drop_eq_getElem_cons place] at h
  obtain ⟨_, _, _, _, _, -, -, given⟩ := h.at
  rw [List.length_take, Nat.min_eq_left place.le] at given
  exact given.not_refused (d := d) (.repeated (by omega) named)

/-- Arguments that fit are not refused. -/
theorem Bindable.not_unbound {why : Interrupt} (h : Bindable r d args keywords scope w₀) :
    ¬Unbound r d args keywords scope w₀ why := by
  intro unbound
  cases unbound with
  | tooMany many => exact absurd h.few (Nat.not_le.2 many)
  | unknown named other => exact other (h.known _ named)
  | @refused before after p _ _ _ _ _ split assigned refused =>
    cases refused with
    | repeated given named =>
      refine h.once p (List.mem_take_iff_getElem.2 ⟨before.length, ?_, by simp [split]⟩) named
      simp only [split, List.length_append, List.length_cons]
      omega
    | missing left unnamed none =>
      rcases h.others before p after split left with named | ⟨e, _, _, _, has, -⟩
      · exact mem_keywordNames_iff.1 named unnamed
      · rw [has] at none
        cases none
    | default left unnamed has interrupted =>
      rcases h.others before p after split left with named | ⟨e, _, _, _, has', assigned', value⟩
      · exact mem_keywordNames_iff.1 named unnamed
      · cases has.symm.trans has'
        obtain ⟨-, rfl⟩ := assigned.unique assigned'
        rw [value] at interrupted
        cases interrupted

/-- **Success of a binding.** -/
theorem exists_ok_bind_iff (r : Recursion) (d : Definition) (args : List Value)
    (keywords : List (String × Value)) (w : World) :
    (∃ scope, (bind r d args keywords).outcome w = .ok scope) ↔
      Bindable r d args keywords w.scopes.all.size ((newScope d.scope true).after w) := by
  have cases := bind_cases r d args keywords w
  constructor
  · rintro ⟨scope, ok⟩
    rw [ok] at cases
    obtain ⟨rfl, few, known, values, assigned⟩ := cases
    refine ⟨few, known, assigned.once (List.append_nil _).symm few, ?_⟩
    intro before p after split left
    rw [split] at assigned
    obtain ⟨values', v, _, w₁, _, -, assigned, given⟩ := assigned.at
    cases given with
    | position given => exact absurd (List.getElem?_eq_some_iff.1 given).1 (by omega)
    | keyword _ named => exact .inl (mem_keywordNames_iff.2 (by simp [named]))
    | @default e _ _ _ has value => exact .inr ⟨e, values', w₁, v, has, assigned, value⟩
  · intro fits
    cases outcome : (bind r d args keywords).outcome w with
    | ok scope => exact ⟨scope, rfl⟩
    | error why =>
      rw [outcome] at cases
      exact absurd cases fits.not_unbound

/-- A parameter that is reached without a value is what a binding fails for. -/
theorem argumentFailure_of_missing {w : World} (split : d.params = before ++ p :: after)
    (assigned : Assigned r args keywords w.scopes.all.size ((newScope d.scope true).after w) before
      values w₀)
    (missing : Refused r d args keywords w.scopes.all.size before.length p w₀
      (.failure (.ofCause (.missingArgument d.what d.name (paramName p)))))
    (none : p.2 = none) : ArgumentFailure ((bind r d args keywords).outcome w) := by
  have cases := bind_cases r d args keywords w
  cases outcome : (bind r d args keywords).outcome w with
  | ok s =>
    rw [outcome] at cases
    obtain ⟨rfl, -, -, _, all⟩ := cases
    rw [split] at all
    exact absurd missing (all.not_refused_at assigned)
  | error why =>
    rw [outcome] at cases
    refine cases.argumentFailure fun before' q after' e values' w' _ _ split' assigned' left
      unnamed has interrupted => ?_
    have refused : Refused r d args keywords w.scopes.all.size before'.length q w' why :=
      .default left unnamed has interrupted
    obtain ⟨-, rfl⟩ := assigned.refused_unique missing assigned' refused (split.symm.trans split')
    rw [none] at has
    cases has

/-- **Arguments are bound exactly if they fit**, and every parameter is bound then.  The scope of
the invocation is new.  While the parameters are bound from the left, its variables are those
that are bound already, and all others are looked up from the scope of the definition.  After a
success every parameter has been supplied with its value, and if no two have one name
the variables of the scope are the parameters with these.  A failure is one for an argument if
there are too many arguments, a name that is unknown or a parameter that is given twice, or once
a parameter is reached that has no value; else it is that of a default. -/
theorem bind_spec (n : Nat) {w : World} (hw : w.scopes.Reachable) {d : Definition}
    (hd : (d.scope : Nat) < w.scopes.all.size) (args : List Value)
    (keywords : List (String × Value)) :
    let r := Recursion.ofDepth n
    let scope := w.scopes.all.size
    let w₀ := (newScope d.scope true).after w
    let names := d.params.map paramName
    let outcome := (bind r d args keywords).outcome w
    ((∃ s, outcome = .ok s) ↔ Bindable r d args keywords scope w₀) ∧
      (∀ before values w', Assigned r args keywords scope w₀ before values w' →
        (∀ name, ((w'.scopes.get scope).vars.get? name).isSome ↔ name ∈ before.map paramName) ∧
        ∀ name, Name.normalize name ∉ before.map paramName →
          w'.scopes.var? scope name = w'.scopes.var? d.scope name) ∧
      (∀ s, outcome = .ok s → s = scope ∧ ∃ values,
        Assigned r args keywords scope w₀ d.params values ((bind r d args keywords).after w) ∧
          (∀ before p after, d.params = before ++ p :: after → ∃ values' v more w₁ w₂,
            values = values' ++ v :: more ∧
              Assigned r args keywords scope w₀ before values' w₁ ∧
              Supplied r args keywords scope before.length p w₁ v w₂) ∧
          (names.Nodup →
            (((bind r d args keywords).after w).scopes.get s).vars = names.zip values)) ∧
      (¬(args.length ≤ d.params.length ∧ (∀ name ∈ keywordNames keywords, name ∈ names) ∧
          ∀ p ∈ d.params.take args.length, paramName p ∉ keywordNames keywords) →
        ArgumentFailure outcome) ∧
      (∀ before p after values w', d.params = before ++ p :: after →
        Assigned r args keywords scope w₀ before values w' → args.length ≤ before.length →
        paramName p ∉ keywordNames keywords → p.2 = none → ArgumentFailure outcome) ∧
      ∀ why, outcome = .error why → Unbound r d args keywords scope w₀ why := by
  intro r scope w₀ names outcome
  have cases := bind_cases r d args keywords w
  have reachable : w₀.scopes.Reachable := hw.add none (some true) fun p e => Option.some.inj e ▸ hd
  have there : (scope : Nat) < w₀.scopes.all.size := by simp [w₀, scope]
  have fresh : w₀.scopes.get scope = _ := Scopes.get_add_self w.scopes d.scope none (some true)
  have stage {before : List Parameter} {values : List Value} {w' : World}
      (assigned : Assigned r args keywords scope w₀ before values w') :=
    assigned.get_scope reachable there (by rw [fresh]) (by rw [fresh])
  refine ⟨exists_ok_bind_iff r d args keywords w, fun before values w' assigned => ?_,
    fun s ok => ?_, fun unfit => ?_, ?_, fun why failed => ?_⟩
  · obtain ⟨hw', -, same⟩ := stage assigned
    have length : (before.map paramName).length = values.length := by
      rw [List.length_map, assigned.length_eq]
    refine ⟨fun name => by rw [same, Table.isSome_ofPairs_iff length], fun name other => ?_⟩
    have none :
        (Table.ofPairs (before.map paramName) values).get? (Name.normalize name) = none := by
      rw [← Option.not_isSome_iff_eq_none, Table.isSome_ofPairs_iff length]
      exact other
    have around :
        (w'.scopes.get scope).ancestors = d.scope :: (w.scopes.get d.scope).ancestors := by
      rw [same, fresh]
    rw [hw'.wellFormed.var?_eq around, same, none, Option.none_or]
  · simp only [outcome] at ok
    rw [ok] at cases
    obtain ⟨rfl, -, -, values, assigned⟩ := cases
    refine ⟨rfl, values, assigned, fun before p after split => (split ▸ assigned).at,
      fun nodup => ?_⟩
    have length : names.length = values.length := by rw [List.length_map, assigned.length_eq]
    rw [(stage assigned).2.2, Table.ofPairs_of_nodup length nodup]
  · simp only [outcome]
    cases e : (bind r d args keywords).outcome w with
    | ok s =>
      have fits := (exists_ok_bind_iff r d args keywords w).1 ⟨s, e⟩
      exact absurd ⟨fits.few, fits.known, fits.once⟩ unfit
    | error why =>
      rw [e] at cases
      refine cases.argumentFailure fun _ _ _ _ _ _ few known split assigned left _ _ _ => ?_
      exact unfit ⟨few, known, assigned.once split left⟩
  · intro before p after values w' split assigned left unnamed none
    have unnamed : keywordValue? keywords (paramName p) = .none := by
      rwa [mem_keywordNames_iff, not_not] at unnamed
    exact argumentFailure_of_missing split assigned (.missing left unnamed none) none
  · simp only [outcome] at failed
    rwa [failed] at cases

/-- A parameter by position, and one whose default is the first one in another spelling. -/
theorem bind_spec_default :
    let d : Definition :=
      { what := .mixin, name := "m", scope := 0, body := []
        params := [("my_x", none), ("y", some (.variable "my-x"))] }
    let w : World := { scopes := (Scopes.add {} none none none).2 }
    ∃ u v, (((bind (.ofDepth 2) d [.null] []).after w).scopes.get 1).vars =
      [("my-x", u), ("y", v)] := by
  intro d w
  have root : (Scopes.add {} none none none).2.Reachable :=
    Scopes.Reachable.empty.add none none fun _ h => nomatch h
  obtain ⟨-, -, bound, -⟩ := bind_spec 2 (w := w) root (d := d) (by decide +kernel) [.null] []
  obtain ⟨-, values, assigned, -, vars⟩ := bound 1 rfl
  have names : d.params.map paramName = ["my-x", "y"] := by decide +kernel
  rw [names] at vars
  obtain ⟨u, v, rfl⟩ := List.length_eq_two.1 (assigned.length_eq.symm.trans rfl)
  exact ⟨u, v, vars (by decide)⟩

end Evaluation
end Stylesheet

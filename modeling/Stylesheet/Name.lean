/-
# Names

A variable, a mixin, a function, a parameter and a buffer are found by a name
in which a hyphen and a run of underscores are the same: `my__box` and `my-box`
name one thing.  `Name.normalize` writes the canonical spelling, which
`normalize_normalize` shows to be final.
-/

namespace Stylesheet
namespace Name

/-- A letter of the basic alphabet or an underscore: what starts a name. -/
def isStart (c : Char) : Bool :=
  c.isAlpha || c == '_'

/-- What a name goes on with: a letter, a digit, an underscore or a hyphen. -/
def isPart (c : Char) : Bool :=
  c.isAlphanum || c == '_' || c == '-'

/-- `cs` with every run of underscores written as one hyphen. -/
def normalizeChars : List Char → List Char
  | [] => []
  | c :: rest =>
    if c = '_' then
      if rest.head? = some '_' then normalizeChars rest else '-' :: normalizeChars rest
    else c :: normalizeChars rest

/-- The canonical spelling of a name: every run of underscores is one hyphen. -/
def normalize (name : String) : String :=
  String.ofList (normalizeChars name.toList)

/-- No underscore is left. -/
theorem underscore_notMem_normalizeChars (cs : List Char) : '_' ∉ normalizeChars cs := by
  induction cs with
  | nil => simp [normalizeChars]
  | cons c rest ih =>
    rw [normalizeChars]
    split
    · split
      · exact ih
      · simp [ih]
    · rename_i h
      simp [ih, Ne.symm h]

/-- Without underscores a name is left as it is. -/
theorem normalizeChars_of_notMem {cs : List Char} (h : '_' ∉ cs) : normalizeChars cs = cs := by
  induction cs with
  | nil => rfl
  | cons c rest ih =>
    simp only [List.mem_cons, not_or] at h
    rw [normalizeChars, if_neg (Ne.symm h.1), ih h.2]

/-- **A canonical spelling is its own.** -/
theorem normalize_normalize (name : String) : normalize (normalize name) = normalize name := by
  simp only [normalize, String.toList_ofList]
  rw [normalizeChars_of_notMem (underscore_notMem_normalizeChars _)]

end Name
end Stylesheet

/-
# The lines of what is read

Every node that is read from a text is on a line of the file that the text is from
(`Document.in_of_readIn`), and so is the place of every refusal
(`Document.refused_in`), as long as the file has a name.
-/

import Stylesheet.Proofs.Grammar.Made
import Stylesheet.Proofs.Node.Located

namespace Stylesheet

variable {file : String}

/-- What is stamped with a place in a file is in that file. -/
theorem Info.span_infoAt (named : file ≠ "") {s : Span} (h : s.In file) :
    (Grammar.infoAt s).span.In file := by
  obtain ⟨rfl, line⟩ := h
  refine ⟨?_, ?_⟩
  · simp [Grammar.infoAt, Info.span, String.isEmpty_iff, named]
  · show (0 : Int) < (s.line.toNat : Int)
    omega

/-- What is built on a line of a file is on the lines of the file. -/
theorem Grammar.makes_in (named : file ≠ "") :
    Makes (Span.In file) (Node.In file) fun d => d.span.In file where
  leaf here _ _ := Node.in_plain.2 ⟨Info.span_infoAt named here, nofun⟩
  branch here _ _ inside := Node.in_plain.2 ⟨Info.span_infoAt named here, inside⟩
  clause here inside := Node.in_cond.2 ⟨Info.span_infoAt named here, inside, nofun⟩
  addElse := Node.in_addElse
  refusal here := here

/-- Every rule keeps its places in the file that the text comes from. -/
theorem Grammar.closed_in (named : file ≠ "") :
    Closed (Cursor.In file) fun _ r => r.Made (Node.In file) fun d => d.span.In file :=
  closed_made (makes_in named) fun _ here => ⟨here.1, Int.natCast_pos.2 here.2⟩

/-- The start of a text is in its file. -/
theorem Cursor.in_start (file : String) (text : List Char) : (Cursor.start file text).In file :=
  ⟨rfl, Nat.one_pos⟩

/-- The place where a text is refused is in its file. -/
theorem refusalAt_in (file : String) (text : List Char) (left : Nat) :
    (refusalAt file text left).span.In file :=
  ⟨rfl, by simp only [refusalAt]; omega⟩

namespace Document

/-- **The content of a document is on the lines of its file**, in either syntax. -/
theorem in_of_readIn (named : file ≠ "") {inputSyntax : Syntax} {text : String}
    {log log' : Log} {tree : Node} (h : readIn inputSyntax file text log = (.ok tree, log')) :
    ∃ cs, tree = .plain {} .root cs ∧ ∀ n ∈ cs, n.In file := by
  obtain ⟨cs, e, fits⟩ := fits_of_readIn (Grammar.closed_in named) (Cursor.in_start file) h
  cases fits with
  | ok inside => exact ⟨cs, e, inside⟩

/-- A text is refused at a line of its file. -/
theorem refused_in (named : file ≠ "") {text : String} {d : Diagnostic}
    (h : parse file text = .error d) : d.span.In file := by
  rcases refused_of_parse (Grammar.closed_in named) (Cursor.in_start file _) h with
    built | ⟨left, rfl⟩
  · cases built with
    | error refused => exact refused
  · exact refusalAt_in file _ left

end Document

namespace Indentation

/-- Indentation is refused at a line of the file. -/
theorem ends_place (file : String) (first : Bool) (columns : List Nat) (roles : List Role) :
    Ends (fun d => d.span.In file) (place file first columns roles) fun _ => True := by
  induction roles generalizing first columns with
  | nil => exact .done
  | cons role roles ih =>
    cases role with
    | blank => exact (ih first columns).after fun _ => .done
    | comment text => exact (ih first columns).after fun _ => .done
    | statement line =>
      have refused {α : Type} (cause : Cause) :
          Ends (fun d => d.span.In file) (.error
            { cause, span := { file, line := line.number + 1 } } : Except Diagnostic α)
            fun _ => True :=
        .error ⟨rfl, by simp only; omega⟩
      rw [place]
      split
      · split
        · exact refused _
        · exact (ih _ _).after fun _ => .done
      · dsimp only
        split
        · exact refused _
        · exact (ih _ _).after fun _ => .done

/-- A parse ends well, or with a diagnostic in the file. -/
theorem ends_outcome (file : String) (source : List (List Char)) :
    Ends (fun d => d.span.In file) (outcome file source) fun _ => True :=
  (ends_place file _ _ _).after fun _ => .done

end Indentation

/-- **A text that is refused is refused at a line of its file.** -/
theorem Document.stops_readIn_in (named : file ≠ "") (inputSyntax : Syntax) (text : String) :
    (Document.readIn inputSyntax file text).Stops (Failure.In file) :=
  stops_readIn inputSyntax (fun _ _ => refused_in named) fun d refused => by
    have ends := Indentation.ends_outcome file (Text.splitLines text.toList)
    rw [refused] at ends
    cases ends with
    | error h => exact h

end Stylesheet

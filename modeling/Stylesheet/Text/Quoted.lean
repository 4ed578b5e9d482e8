/-
# Quoted texts

A text in a message stands in quotes, and what cannot be seen in it is spelled
out: a backslash, the quote itself and the three common controls with a backslash
before them, any other character that is not printable by its code point in two,
four or eight hexadecimal digits.
-/

import Stylesheet.Text.Printable

namespace Stylesheet

/-- A code point in at least `width` hexadecimal digits. -/
def hexText (width n : Nat) : String :=
  let digits := Nat.toDigits 16 n
  String.ofList (List.replicate (width - digits.length) '0' ++ digits)

/-- A character by its code point. -/
def escapedChar (c : Char) : String :=
  let n := c.toNat
  if n < 0x100 then "\\x" ++ hexText 2 n
  else if n < 0x10000 then "\\u" ++ hexText 4 n
  else "\\U" ++ hexText 8 n

/-- One character of a quoted text. -/
def quotedChar (quote c : Char) : String :=
  if c = '\\' || c = quote then String.ofList ['\\', c]
  else if c = '\n' then "\\n"
  else if c = '\r' then "\\r"
  else if c = '\t' then "\\t"
  else if Text.isPrintable c then c.toString
  else escapedChar c

/-- A text in single quotes, or in double quotes when it holds single quotes and no
double ones. -/
def quotedText (text : String) : String :=
  let quote := if text.contains '\'' && !text.contains '"' then '"' else '\''
  let inner := String.join (text.toList.map (quotedChar quote))
  quote.toString ++ inner ++ quote.toString

/-- A text that may be absent, in quotes. -/
def quotedText? (text : Option String) : String :=
  match text with
  | some t => quotedText t
  | none => "None"

end Stylesheet

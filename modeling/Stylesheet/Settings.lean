/-
# Settings

Options can be given by name, as they come from a configuration or a caller.  A
setting that is absent counts as not given, but its name has to be one of the
known ones.  `Options.ofSettings` makes the options, and `SettingsError` says why
it cannot.
-/

import Stylesheet.Log
import Stylesheet.Options
import Stylesheet.Scope

namespace Stylesheet

/-- The value of a setting. -/
inductive Setting where
  /-- A text. -/
  | text (s : String)
  /-- A switch. -/
  | flag (b : Bool)
  /-- No value. -/
  | absent
  deriving DecidableEq, Repr

/-- Why settings make no options. -/
inductive SettingsError where
  /-- Names that are no options, in order. -/
  | unknown (names : List String)
  /-- A word that is no style. -/
  | badStyle (word : String)
  /-- A word that is no syntax. -/
  | badSyntax (word : String)
  deriving DecidableEq, Repr

/-- The wording of an error. -/
def SettingsError.message : SettingsError → String
  | unknown names => "unknown compiler option(s): " ++ String.intercalate ", " names
  | badStyle word => quotedText word ++ " is not a valid OutputStyle"
  | badSyntax word => quotedText word ++ " is not a valid Syntax"

namespace Options

/-- The names of the options. -/
def settingNames : List String :=
  ["style", "syntax", "filename", "quiet", "indent"]

/-- The value of a setting that is a text. -/
def textSetting? (settings : Table Setting) (name : String) : Option String :=
  match settings.get? name with
  | some (.text s) => some s
  | _ => none

/-- The options of some settings. -/
def ofSettings (settings : Table Setting) : Except SettingsError Options := do
  let unknown := settings.names.filter fun n => !settingNames.contains n
  if !unknown.isEmpty then
    throw (.unknown (unknown.mergeSort fun a b => a ≤ b))
  let defaults : Options := {}
  let style ←
    match textSetting? settings "style" with
    | none => pure defaults.style
    | some word =>
      match Style.ofName? word with
      | some s => pure s
      | none => throw (.badStyle word)
  let inputSyntax ←
    match textSetting? settings "syntax" with
    | none => pure defaults.inputSyntax
    | some word =>
      match Syntax.ofName? word with
      | some s => pure s
      | none => throw (.badSyntax word)
  return {
    style
    inputSyntax
    file := (textSetting? settings "filename").getD defaults.file
    quiet := settings.get? "quiet" == some (.flag true)
    indent := (textSetting? settings "indent").getD defaults.indent }

/-- The settings with `value` for a name that has none. -/
def withDefault (name : String) (value : Setting) (settings : Table Setting) :
    Table Setting :=
  match settings.get? name with
  | none | some .absent => settings.set name value
  | some _ => settings

end Options
end Stylesheet

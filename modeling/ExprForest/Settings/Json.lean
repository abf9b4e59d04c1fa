import ExprForest.Json.Numbers
import ExprForest.Settings.Basic

namespace ExprForest.Settings

/-!
# Settings as JSON

Settings are an object of their two members, and no others.  What is left out has its standard value.
-/

open Json (Reader Value Record)

/-- Settings as an object. -/
def toJson (s : Settings) : Value :=
  .object [("skip_blank_lines", .bool s.skipBlankLines), ("max_nesting", Value.ofNat s.maxNesting)]

/-- Settings under construction. -/
structure Parts where
  skipBlankLines : Option Bool
  maxNesting : Option Nat

/-- How settings are put together. -/
def record : Record Parts Settings where
  expected := "struct ParserConfig"
  fields := [
    { name := "skip_blank_lines"
      present := fun s => s.skipBlankLines.isSome
      read := fun s => do return { s with skipBlankLines := some (← Reader.boolean) } },
    { name := "max_nesting"
      present := fun s => s.maxNesting.isSome
      read := fun s => do return { s with maxNesting := some (← Reader.natural) } }]
  start := ⟨none, none⟩
  closed := true
  shortArrays := true
  complete s :=
    .ok ⟨s.skipBlankLines.getD standard.skipBlankLines, s.maxNesting.getD standard.maxNesting⟩

/-- The settings that a JSON text describes, if they are admissible. -/
def ofJson (text : String) : Except SettingsError Settings :=
  match record.read.readAll text with
  | .error e => .error (.malformed e)
  | .ok s => if s.Admissible then .ok s else .error .noLevels

end ExprForest.Settings

import ExprForest.Json.Error

namespace ExprForest

/-!
# Settings of a parser

* `Settings` — how blank lines are treated and how deep parentheses may nest;
* `Settings.standard` — blank lines are skipped, and 32 levels are allowed;
* `Settings.Admissible` — at least one level of parentheses is allowed;
* `SettingsError` — why settings are refused.
-/

/-- Settings of a parser. -/
structure Settings where
  /-- A line of white space only is no statement.  Otherwise it reaches the grammar and fails. -/
  skipBlankLines : Bool
  /-- How deep the parentheses of a statement may nest, those of calls included. -/
  maxNesting : Nat
  deriving DecidableEq

namespace Settings

/-- Blank lines are skipped, and parentheses nest up to 32 deep. -/
def standard : Settings := ⟨true, 32⟩

instance : Inhabited Settings := ⟨standard⟩

/-- Settings that allow at least one level of parentheses. -/
def Admissible (s : Settings) : Prop :=
  0 < s.maxNesting

instance (s : Settings) : Decidable s.Admissible :=
  inferInstanceAs (Decidable (0 < s.maxNesting))

/-- The standard settings are admissible. -/
theorem admissible_standard : standard.Admissible := by decide

end Settings

/-- Why settings are refused. -/
inductive SettingsError where
  /-- The text does not describe settings. -/
  | malformed (e : Json.Error)
  /-- The settings are not admissible: no level of parentheses would be allowed. -/
  | noLevels

namespace SettingsError

/-- The wording of refused settings. -/
def message : SettingsError → String
  | malformed e => "malformed parser configuration: " ++ e.message
  | noLevels => "max_nesting must be at least 1"

end SettingsError

end ExprForest

import ExprForest.Grammar.Standard
import ExprForest.ParseError.Basic
import ExprForest.Scope

namespace ExprForest

/-!
# Parsing one statement

* `Parser` — a parser over a grammar, with admissible settings;
* `Outcome` — what a call gives: a value, a parse error, or nothing because an engine broke off;
* `Parser.settle` — what the result of a run and that of the release amount to;
* `Parser.statement` — runs the engine of a line once, in a scope of its own.
-/

/-- A parser over a grammar, with admissible settings. -/
structure Parser (g : Grammar) where
  settings : Settings
  admissible : settings.Admissible

namespace Parser

/-- A parser over a grammar, if the settings are admissible. -/
def ofSettings (g : Grammar) (settings : Settings) : Except SettingsError (Parser g) :=
  if h : settings.Admissible then .ok ⟨settings, h⟩ else .error .noLevels

/-- A parser over the standard grammar with the standard settings. -/
def standard : Parser .standard :=
  ⟨.standard, Settings.admissible_standard⟩

end Parser

/-- What a call gives. -/
inductive Outcome (α : Type) where
  | success (value : α)
  | failure (e : ParseError)
  /-- An engine broke off its run. -/
  | aborted

namespace EngineError

/-- The error of a statement for which no engine was started. -/
def asRefusal : EngineError → ParseError
  | outOfMemory => .outOfMemory "starting the grammar engine"
  | e => .unknown ("could not start the grammar engine: " ++ e.message)

/-- The error of a statement on which the engine failed. -/
def asFailure (line : String) : EngineError → ParseError
  | invalidToken lexeme span => .invalidToken lexeme span ⟨false, line⟩
  | syntaxError message span => .syntaxError message span ⟨false, line⟩
  | outOfMemory => .outOfMemory "parsing a statement"
  | other message => .unknown message

/-- The error of a statement whose engine was not released. -/
def asLeak (e : EngineError) : ParseError :=
  .unknown ("grammar engine failed to release: " ++ e.message)

end EngineError

namespace Parser

variable {g : Grammar}

/-- What the results of the run and of the release of a statement's engine amount to.  The tree of an engine
    that was not released is not handed out. -/
def settle (line : String) : Except EngineError Tree → Except EngineError Unit → Outcome Tree
  | .ok t, .ok () => .success t
  | .error e, .ok () => .failure (e.asFailure line)
  | _, .error e => .failure e.asLeak

/-- Parses one statement.  Places in its errors are relative to the line.  The scope ends on every way out:
    behind the release, with an empty slot, and where the run breaks off, with the engine still in it. -/
def statement (p : Parser g) (line : String) (log : Log) : Outcome Tree × Log :=
  match Scope.acquire g p.settings line log with
  | (.error e, log) => (.failure e.asRefusal, log)
  | (.ok scope, log) =>
    match scope.nextResult log with
    | (.aborted, scope, log) => (.aborted, scope.drop log)
    | (.returned result, scope, log) =>
      let (release, scope, log) := scope.dispose log
      (settle line result release, scope.drop log)

end Parser

end ExprForest

import ExprForest.Settings.Basic
import ExprForest.Span.Basic
import ExprForest.Tree.Basic

namespace ExprForest

/-!
# Grammars and their engines

A grammar starts engines, each bound to one line.  An engine runs, which gives a tree or an error, and
is released afterwards.

* `EngineError` — how an engine fails;
* `Completion` — how a run ends: it returns, or it breaks off abnormally;
* `Grammar` — the type of its engines and what can be done with them.
-/

/-- How an engine fails. -/
inductive EngineError where
  | invalidToken (lexeme : String) (span : Span)
  | syntaxError (message : String) (span : Span)
  | outOfMemory
  | other (message : String)
  deriving DecidableEq

/-- The wording of an engine's error. -/
def EngineError.message : EngineError → String
  | invalidToken lexeme span => "unrecognized lexeme '" ++ lexeme ++ "' at " ++ span.text
  | syntaxError message span => message ++ " at " ++ span.text
  | outOfMemory => "engine ran out of memory"
  | other message => message

/-- How a run of an engine ends. -/
inductive Completion where
  | returned (result : Except EngineError Tree)
  /-- The run broke off without a result. -/
  | aborted

/-- A grammar: the engines it starts for a line, and what they do.  A run gives the engine as it is
    left behind. -/
structure Grammar where
  Engine : Type
  start : Settings → String → Except EngineError Engine
  run : Engine → Completion × Engine
  release : Engine → Except EngineError Unit

end ExprForest

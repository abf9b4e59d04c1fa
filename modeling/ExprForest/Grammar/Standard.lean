import ExprForest.Statement.Diagnosis

namespace ExprForest

/-!
# The standard grammar

* `Standard.Engine` — an engine over one line, which gives its outcome once;
* `Grammar.standard` — the grammar of arithmetic expressions and assignments.

These engines are never out of memory, and none of them breaks off.  The number of tokens of a line, which is
only traced, is left out.
-/

namespace Standard

/-- How far an engine has come. -/
inductive Phase where
  /-- It has not run. -/
  | fresh
  /-- It has run. -/
  | spent
  | released
  deriving DecidableEq

/-- An engine over one line. -/
structure Engine where
  line : String
  maxNesting : Nat
  phase : Phase

namespace Engine

/-- An engine that has not run. -/
def start (settings : Settings) (line : String) : Engine :=
  ⟨line, settings.maxNesting, .fresh⟩

/-- Runs the engine.  The first run gives the outcome of the line, whether that is a tree or an error,
    and uses the engine up. -/
def run (e : Engine) : Except EngineError Tree × Engine :=
  match e.phase with
  | .fresh => (Statement.outcome e.maxNesting e.line, { e with phase := .spent })
  | .spent => (.error (.other "engine already produced its result"), e)
  | .released => (.error (.other "engine used after disposal"), e)

/-- Releases the engine, which is possible once. -/
def release (e : Engine) : Except EngineError Unit × Engine :=
  match e.phase with
  | .released => (.error (.other "engine disposed twice"), e)
  | _ => (.ok (), { e with phase := .released })

end Engine

end Standard

/-- The grammar of arithmetic expressions and assignments. -/
def Grammar.standard : Grammar where
  Engine := Standard.Engine
  start settings line := .ok (.start settings line)
  run e := (.returned e.run.1, e.run.2)
  release e := e.release.1

end ExprForest

import ExprForest.Log

namespace ExprForest

/-!
# Scopes of engines

A scope owns the engine of one statement, in a slot that is full until the engine is taken out to be released.
A scope that goes out of use releases what is still in its slot, so that an engine is released however its
statement ends: when the caller asks for the result of the release, or when its run breaks off.

* `Scope` — the slot;
* `Scope.acquire`, `Scope.nextResult`, `Scope.dispose` — filling the slot, running the engine in it, and taking
  it out;
* `Scope.drop` — the end of a scope.

A run that breaks off leaves its engine in the slot.  A release that fails at the end of a scope is only warned
of; the warning is left out here.
-/

/-- Owns an engine for the duration of one statement. -/
structure Scope (g : Grammar) where
  slot : Option (Held g)

namespace Scope

variable {g : Grammar}

/-- Asks a grammar for an engine. -/
def acquire (g : Grammar) (settings : Settings) (line : String) (log : Log) :
    Except EngineError (Scope g) × Log :=
  match log.start g settings line with
  | (.error e, log) => (.error e, log)
  | (.ok held, log) => (.ok ⟨some held⟩, log)

/-- Runs the engine in the slot. -/
def nextResult (scope : Scope g) (log : Log) : Completion × Scope g × Log :=
  match scope.slot with
  | some held =>
    let (completion, held, log) := log.run held
    (completion, ⟨some held⟩, log)
  | none => (.returned (.error (.other "grammar engine already released")), scope, log)

/-- Takes the engine out of the slot and releases it. -/
def dispose (scope : Scope g) (log : Log) : Except EngineError Unit × Scope g × Log :=
  match scope.slot with
  | some held =>
    let (release, log) := log.release held
    (release, ⟨none⟩, log)
  | none => (.ok (), scope, log)

/-- The end of a scope: an engine that is still in the slot is released, whatever that gives. -/
def drop (scope : Scope g) (log : Log) : Log :=
  match scope.slot with
  | some held => (log.release held).2
  | none => log

end Scope

end ExprForest

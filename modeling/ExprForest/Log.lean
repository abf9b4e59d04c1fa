import ExprForest.Grammar.Basic

namespace ExprForest

/-!
# The log of engines

Whatever is done with engines goes through this module, which keeps a log of it.

* `Event` — a step: an engine started or refused for a line, run, released; engines are told apart by
  a serial number;
* `Log` — the events so far;
* `Log.start`, `Log.run`, `Log.release` — the steps, each with its entry in the log.
-/

/-- A step taken with an engine. -/
inductive Event where
  | started (serial : Nat) (line : String)
  | refused (line : String)
  | ran (serial : Nat)
  | released (serial : Nat)
  deriving DecidableEq

/-- The steps taken so far, the latest first, and the number of engines started. -/
structure Log where
  events : List Event
  issued : Nat

namespace Log

/-- Nothing has happened. -/
def empty : Log := ⟨[], 0⟩

/-- The steps in the order in which they were taken. -/
def trace (log : Log) : List Event :=
  log.events.reverse

/-- The lines for which an engine was asked, in order, whether it was refused or not. -/
def lines (log : Log) : List String :=
  log.trace.filterMap fun
    | .started _ line => some line
    | .refused line => some line
    | _ => none

/-- How many engines were started. -/
def starts (log : Log) : Nat :=
  log.events.countP fun
    | .started .. => true
    | _ => false

/-- How often an engine was run. -/
def runs (log : Log) : Nat :=
  log.events.countP fun
    | .ran _ => true
    | _ => false

/-- How often an engine was released. -/
def releases (log : Log) : Nat :=
  log.events.countP fun
    | .released _ => true
    | _ => false

/-- One more event. -/
def add (log : Log) (e : Event) : Log :=
  { log with events := e :: log.events }

@[simp] theorem trace_empty : empty.trace = [] := rfl

@[simp] theorem trace_add (log : Log) (e : Event) : (log.add e).trace = log.trace ++ [e] := by
  simp [trace, add]

end Log

/-- An engine in use, with its serial number. -/
structure Held (g : Grammar) where
  serial : Nat
  engine : g.Engine

namespace Log

variable {g : Grammar}

/-- Asks a grammar for an engine. -/
def start (g : Grammar) (settings : Settings) (line : String) (log : Log) :
    Except EngineError (Held g) × Log :=
  match g.start settings line with
  | .error e => (.error e, log.add (.refused line))
  | .ok engine =>
    (.ok ⟨log.issued, engine⟩, { log.add (.started log.issued line) with issued := log.issued + 1 })

/-- Runs an engine. -/
def run (held : Held g) (log : Log) : Completion × Held g × Log :=
  let (completion, engine) := g.run held.engine
  (completion, { held with engine }, log.add (.ran held.serial))

/-- Releases an engine. -/
def release (held : Held g) (log : Log) : Except EngineError Unit × Log :=
  (g.release held.engine, log.add (.released held.serial))

end Log

end ExprForest

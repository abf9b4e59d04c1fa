import ExprForest.Scope
import Mathlib

namespace ExprForest.Scope

/-!
# A scope releases its engine once

* `Use`, `closing` — what may be done with a scope, and the log behind some uses of it and its end;
* `closing_empty`, `closing_full` — an empty slot is left alone; the engine in a full one is released once,
  behind its runs, whatever the uses are and wherever they break off;
* `closing_of_acquire`, `trace_closing` — the same from the start of the engine on.
-/

variable {g : Grammar} {settings : Settings} {line : String} {log : Log}

/-! ### Uses -/

/-- What may be done with a scope before it ends. -/
inductive Use where
  | nextResult | dispose
  deriving DecidableEq

/-- A scope and the log behind one use. -/
def use (scope : Scope g) (log : Log) : Use → Scope g × Log
  | .nextResult => (scope.nextResult log).2
  | .dispose => (scope.dispose log).2

/-- The log behind some uses of a scope and its end. -/
def closing (scope : Scope g) (log : Log) : List Use → Log
  | [] => scope.drop log
  | u :: us => closing (scope.use log u).1 (scope.use log u).2 us

/-- How often some uses run the engine: those behind a release find the slot empty. -/
def Use.runs : List Use → Nat
  | .nextResult :: us => runs us + 1
  | _ => 0

/-! ### The end of a scope -/

/-- With an empty slot nothing more is done. -/
theorem closing_empty (log : Log) (us : List Use) : (⟨none⟩ : Scope g).closing log us = log := by
  induction us with
  | nil => rfl
  | cons u us ih => cases u <;> exact ih

/-- The engine in the slot is released once, behind all of its runs. -/
theorem closing_full (held : Held g) (log : Log) (us : List Use) :
    (⟨some held⟩ : Scope g).closing log us =
      ⟨.released held.serial :: (List.replicate (Use.runs us) (.ran held.serial) ++ log.events),
        log.issued⟩ := by
  -- on the uses: a run keeps the slot full, and a release empties it
  induction us generalizing held log with
  | nil => rfl
  | cons u us ih =>
    cases u with
    | nextResult =>
      have hran : List.replicate (Use.runs us) (.ran held.serial) ++ .ran held.serial :: log.events =
          List.replicate (Use.runs us + 1) (.ran held.serial) ++ log.events := by
        rw [List.replicate_succ', List.append_assoc, List.singleton_append]
      have hrun : (⟨some held⟩ : Scope g).closing log (.nextResult :: us) =
          (⟨some ⟨held.serial, (g.run held.engine).2⟩⟩ : Scope g).closing
            (log.add (.ran held.serial)) us := rfl
      rw [hrun, ih]
      exact congrArg (fun events => (⟨.released held.serial :: events, log.issued⟩ : Log)) hran
    | dispose => exact closing_empty _ us

/-! ### From the start of the engine on -/

/-- A refusal leaves no scope, and an engine that is started is released once. -/
theorem closing_of_acquire (g : Grammar) (settings : Settings) (line : String) (log : Log) (us : List Use) :
    match acquire g settings line log with
    | (.error _, log') => log' = log.add (.refused line)
    | (.ok scope, log') => scope.closing log' us =
        ⟨.released log.issued :: (List.replicate (Use.runs us) (.ran log.issued) ++
          .started log.issued line :: log.events), log.issued + 1⟩ := by
  rw [acquire, Log.start]
  cases g.start settings line with
  | error e => rfl
  | ok engine => exact closing_full _ _ us

/-- **Released once.**  Whatever is done with a scope, and wherever it breaks off: behind the end of the scope
    the log shows the start of its engine, the runs before the first release, and one release. -/
theorem trace_closing (us : List Use) :
    match acquire g settings line log with
    | (.error _, log') => log'.trace = log.trace ++ [.refused line]
    | (.ok scope, log') => (scope.closing log' us).trace =
        log.trace ++ .started log.issued line ::
          (List.replicate (Use.runs us) (.ran log.issued) ++ [.released log.issued]) := by
  have hclosing := closing_of_acquire g settings line log us
  split
  · rename_i hacquire
    rw [hacquire] at hclosing
    simp only at hclosing
    rw [hclosing, Log.trace_add]
  · rename_i hacquire
    rw [hacquire] at hclosing
    simp only at hclosing
    rw [hclosing]
    simp [Log.trace]

end ExprForest.Scope

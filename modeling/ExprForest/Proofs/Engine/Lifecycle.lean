import ExprForest.Proofs.Forest.AllOrNothing

namespace ExprForest

/-!
# The life of engines over many calls

* `Log.Settled` — logs in which every engine that was started has been run once and then released once;
* `Log.Settled.steps`, `Log.Settled.releases_eq` — what such a log says of an engine, and of all together;
* `Parser.Call`, `Parser.afterCalls` — calls of a parser, and the log behind a sequence of them;
* `Parser.settled_afterCalls` — no sequence of calls leaves an engine behind;
* `Parser.engines_run_and_released_once` — with it, what every statement gives.
-/

/-! ### Logs -/

/-- The serial number of the engine that a step is taken with. -/
def Event.serial? : Event → Option Nat
  | started serial _ => some serial
  | refused _ => none
  | ran serial => some serial
  | released serial => some serial

namespace Log

/-- The steps taken with the engine of a serial number, in order. -/
def steps (log : Log) (serial : Nat) : List Event :=
  log.trace.filter fun e => e.serial? = some serial

/-- A log to which each statement has added a refusal, or an engine that is started, run and
    released. -/
inductive Settled : Log → Prop where
  | empty :
      Settled .empty
  | refused {log : Log} {line : String} :
      Settled log →
      Settled (log.add (.refused line))
  | used {log : Log} {line : String} :
      Settled log →
      Settled ⟨.released log.issued :: .ran log.issued :: .started log.issued line :: log.events,
        log.issued + 1⟩

namespace Settled

variable {log : Log} {serial : Nat}

/-- As many runs as engines. -/
theorem runs_eq (h : log.Settled) : log.runs = log.starts := by
  induction h with
  | empty => rfl
  | refused _ ih => exact ih
  | used _ ih => simpa [Log.runs, Log.starts, List.countP_cons] using ih

/-- As many releases as engines. -/
theorem releases_eq (h : log.Settled) : log.releases = log.starts := by
  induction h with
  | empty => rfl
  | refused _ ih => exact ih
  | used _ ih => simpa [Log.releases, Log.starts, List.countP_cons] using ih

/-- A serial number that was not issued has no steps; one that was issued has three. -/
theorem steps (h : log.Settled) (serial : Nat) :
    log.steps serial = [] ∧ log.issued ≤ serial ∨
      serial < log.issued ∧ ∃ line,
        log.steps serial = [.started serial line, .ran serial, .released serial] := by
  induction h with
  | empty => exact .inl ⟨rfl, Nat.zero_le serial⟩
  | @refused log line _ ih =>
    have hsteps : (log.add (.refused line)).steps serial = log.steps serial := by
      rw [Log.steps, trace_add, List.filter_append]
      exact List.append_nil _
    rw [hsteps]
    exact ih
  | @used log line _ ih =>
    have htrace : (⟨.released log.issued :: .ran log.issued :: .started log.issued line :: log.events,
        log.issued + 1⟩ : Log).steps serial =
          log.steps serial ++ if log.issued = serial then
            [.started log.issued line, .ran log.issued, .released log.issued] else [] := by
      by_cases hserial : log.issued = serial <;>
        simp [Log.steps, trace, Event.serial?, hserial]
    rw [htrace]
    by_cases hserial : log.issued = serial
    · -- the engine just started is the only one with its number
      rcases ih with ⟨hnone, -⟩ | ⟨hlt, -⟩
      · rw [hnone, if_pos hserial, hserial]
        exact .inr ⟨Nat.lt_succ_self serial, line, rfl⟩
      · omega
    · rw [if_neg hserial, List.append_nil]
      rcases ih with ⟨hnone, hle⟩ | ⟨hlt, hsome⟩
      · exact .inl ⟨hnone, Nat.lt_of_le_of_ne hle hserial⟩
      · exact .inr ⟨Nat.lt_succ_of_lt hlt, hsome⟩

end Settled

end Log

/-! ### Calls -/

namespace Parser

variable {g : Grammar} {log : Log}

/-- A call of a parser. -/
inductive Call where
  | statement (line : String)
  | forest (text : String)
  | bytes (input : Option (List UInt8))

/-- The log behind a call. -/
def afterCall (p : Parser g) (log : Log) : Call → Log
  | .statement line => (p.statement line log).2
  | .forest text => (p.forest text log).2
  | .bytes input => (p.forestOfBytes input log).2

/-- The log behind some calls in succession, each of them made whatever became of those before it. -/
def afterCalls (p : Parser g) (calls : List Call) : Log :=
  calls.foldl p.afterCall .empty

theorem settled_statement (p : Parser g) (h : log.Settled) (line : String) :
    (p.statement line log).2.Settled := by
  cases hstart : g.start p.settings line with
  | error e =>
    rw [statement_of_refusal hstart]
    exact h.refused
  | ok engine =>
    rw [statement_of_engine hstart]
    exact h.used

theorem settled_forest (p : Parser g) (h : log.Settled) (text : String) :
    (p.forest text log).2.Settled :=
  p.forestOfLines_preserves text p.settled_statement .empty h (Line.split text)

theorem settled_afterCall (p : Parser g) (h : log.Settled) (call : Call) :
    (p.afterCall log call).Settled := by
  cases call with
  | statement line => exact p.settled_statement h line
  | forest text => exact p.settled_forest h text
  | bytes input =>
    cases input with
    | none => exact h
    | some bytes =>
      -- bytes that are not UTF-8 do not get as far as an engine
      cases hread : Text.Utf8.read bytes with
      | ok text =>
        rw [afterCall, forestOfBytes, hread]
        exact p.settled_forest h text
      | error m =>
        rw [afterCall, forestOfBytes, hread]
        exact h

/-- **No engine is left behind.**  Whatever a grammar does on which line, and whatever calls are made. -/
theorem settled_afterCalls (p : Parser g) (calls : List Call) : (p.afterCalls calls).Settled := by
  -- on the calls, from any settled log on
  have hcalls : ∀ {log : Log}, log.Settled → (calls.foldl p.afterCall log).Settled := by
    induction calls with
    | nil => exact id
    | cons call calls ih =>
      intro log h
      exact ih (p.settled_afterCall h call)
  exact hcalls .empty

/-- **The life of engines.**  Behind any sequence of calls there are as many runs and releases as engines
    that were started, and the steps taken with any one engine are its start, its run and its release.
    A statement adds these three to the log, or nothing but a refusal, and gives what its engine
    calls for; in particular a tree exactly if the start, the run and the release all succeed.  That there
    is one release is kept by the scope of the engine: however a scope is used and wherever the use of it
    breaks off, behind its end its engine has been released once, after all of its runs.  A statement uses
    its scope for a run alone if that breaks off, and for a run and a release if not. -/
theorem engines_run_and_released_once (p : Parser g) :
    (∀ calls : List Call,
      (p.afterCalls calls).releases = (p.afterCalls calls).starts ∧
        (p.afterCalls calls).runs = (p.afterCalls calls).starts ∧
        ∀ serial, (p.afterCalls calls).steps serial = [] ∨ ∃ line,
          (p.afterCalls calls).steps serial =
            [.started serial line, .ran serial, .released serial]) ∧
      (∀ (line : String) (log : Log),
        ((p.statement line log).2.trace = log.trace ++
          match g.start p.settings line with
          | .error _ => [.refused line]
          | .ok _ => [.started log.issued line, .ran log.issued, .released log.issued]) ∧
        (∀ o, (p.statement line log).1 = o ↔ p.Answers line o) ∧
        ∀ t, (p.statement line log).1 = .success t ↔ p.Fares line (.returned (.ok t)) (.ok ())) ∧
      ∀ (line : String) (log : Log),
        (∀ uses : List Scope.Use,
          match Scope.acquire g p.settings line log with
          | (.error _, log') => log'.trace = log.trace ++ [.refused line]
          | (.ok scope, log') => (scope.closing log' uses).trace =
              log.trace ++ .started log.issued line ::
                (List.replicate (Scope.Use.runs uses) (.ran log.issued) ++ [.released log.issued])) ∧
        (p.statement line log).2 =
          match Scope.acquire g p.settings line log with
          | (.error _, log') => log'
          | (.ok scope, log') => scope.closing log' (uses (scope.nextResult log').1) := by
  refine ⟨fun calls => ?_, fun line log => ⟨trace_statement, fun o => statement_eq_iff_answers, ?_⟩,
    fun line log => ⟨Scope.trace_closing, statement_snd⟩⟩
  · have hsettled := p.settled_afterCalls calls
    refine ⟨hsettled.releases_eq, hsettled.runs_eq, fun serial => ?_⟩
    rcases hsettled.steps serial with ⟨hnone, -⟩ | ⟨-, hsome⟩
    · exact .inl hnone
    · exact .inr hsome
  · intro t
    rw [statement_eq_iff_answers]
    constructor
    · rintro ⟨⟩
      assumption
    · exact .tree

end Parser

end ExprForest

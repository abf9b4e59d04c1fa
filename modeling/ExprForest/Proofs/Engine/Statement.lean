import ExprForest.Parser
import ExprForest.Proofs.Engine.Scope

namespace ExprForest

/-!
# The engine of a statement

* `Parser.statement_snd` — a statement uses one scope, up to its end;
* `Parser.Fares` — how the engine of a line runs and is released;
* `Parser.Answers` — what a parser owes for a line, from how its engine fares;
* `Parser.statement_eq_iff_answers` — a parser gives just that, whatever engines did before;
* `Parser.trace_statement`, `Parser.lines_statement` — the steps taken for one statement.
-/

namespace Parser

variable {g : Grammar} {p : Parser g} {line : String} {log : Log} {o : Outcome Tree}

/-! ### Scopes -/

/-- The uses of a scope by a statement: a run that breaks off is the last one. -/
def uses : Completion → List Scope.Use
  | .aborted => [.nextResult]
  | .returned _ => [.nextResult, .dispose]

/-- One statement uses one scope, if it gets one, up to the end of it. -/
theorem statement_snd :
    (p.statement line log).2 =
      match Scope.acquire g p.settings line log with
      | (.error _, log) => log
      | (.ok scope, log) => scope.closing log (uses (scope.nextResult log).1) := by
  rw [statement]
  generalize Scope.acquire g p.settings line log = acquired
  obtain ⟨e | scope, log'⟩ := acquired
  · rfl
  · simp only
    generalize hrun : scope.nextResult log' = run
    obtain ⟨completion, scope', log''⟩ := run
    cases completion <;> simp only [uses, Scope.closing, Scope.use, hrun]

theorem runs_uses (completion : Completion) : Scope.Use.runs (uses completion) = 1 := by
  cases completion <;> rfl

/-! ### Outcomes -/

/-- How the engine that is started for a line runs, and how it is released after the run. -/
def Fares (p : Parser g) (line : String) (completion : Completion)
    (release : Except EngineError Unit) : Prop :=
  ∃ engine, g.start p.settings line = .ok engine ∧ (g.run engine).1 = completion ∧
    g.release (g.run engine).2 = release

/-- What a parser owes for a line. -/
inductive Answers (p : Parser g) (line : String) : Outcome Tree → Prop where
  /-- No engine is started, for want of memory. -/
  | exhausted :
      g.start p.settings line = .error .outOfMemory →
      Answers p line (.failure (.outOfMemory "starting the grammar engine"))
  /-- No engine is started, for another reason. -/
  | refused {e : EngineError} :
      g.start p.settings line = .error e → e ≠ .outOfMemory →
      Answers p line (.failure (.unknown ("could not start the grammar engine: " ++ e.message)))
  /-- The run breaks off, however the engine is released then. -/
  | aborted {release : Except EngineError Unit} :
      p.Fares line .aborted release →
      Answers p line .aborted
  /-- The engine is not released, whatever its run gave. -/
  | leaked {result : Except EngineError Tree} {e : EngineError} :
      p.Fares line (.returned result) (.error e) →
      Answers p line (.failure (.unknown ("grammar engine failed to release: " ++ e.message)))
  /-- The run fails at a character, and the engine is released. -/
  | invalidToken {lexeme : String} {span : Span} :
      p.Fares line (.returned (.error (.invalidToken lexeme span))) (.ok ()) →
      Answers p line (.failure (.invalidToken lexeme span ⟨false, line⟩))
  /-- The run fails at a token, and the engine is released. -/
  | syntaxError {message : String} {span : Span} :
      p.Fares line (.returned (.error (.syntaxError message span))) (.ok ()) →
      Answers p line (.failure (.syntaxError message span ⟨false, line⟩))
  /-- The run fails for want of memory, and the engine is released. -/
  | outOfMemory :
      p.Fares line (.returned (.error .outOfMemory)) (.ok ()) →
      Answers p line (.failure (.outOfMemory "parsing a statement"))
  /-- The run fails for another reason, and the engine is released. -/
  | other {message : String} :
      p.Fares line (.returned (.error (.other message))) (.ok ()) →
      Answers p line (.failure (.unknown message))
  /-- The run gives a tree, and the engine is released. -/
  | tree {t : Tree} :
      p.Fares line (.returned (.ok t)) (.ok ()) →
      Answers p line (.success t)

/-- Without an engine, only the refusal is logged. -/
theorem statement_of_refusal {e : EngineError} (h : g.start p.settings line = .error e) :
    p.statement line log = (.failure e.asRefusal, log.add (.refused line)) := by
  rw [statement, Scope.acquire, Log.start, h]

/-- What a statement gives for how its engine runs and is released. -/
def conclude (line : String) : Completion → Except EngineError Unit → Outcome Tree
  | .aborted, _ => .aborted
  | .returned result, release => settle line result release

theorem statement_fst {engine : g.Engine} (h : g.start p.settings line = .ok engine) :
    (p.statement line log).1 = conclude line (g.run engine).1 (g.release (g.run engine).2) := by
  rw [statement, Scope.acquire, Log.start, h]
  simp only [Scope.nextResult, Log.run]
  cases (g.run engine).1 <;> rfl

/-- An engine that was started is run and released, however it fares. -/
theorem statement_of_engine {engine : g.Engine} (h : g.start p.settings line = .ok engine) :
    p.statement line log =
      (conclude line (g.run engine).1 (g.release (g.run engine).2),
        ⟨.released log.issued :: .ran log.issued :: .started log.issued line :: log.events,
          log.issued + 1⟩) := by
  refine Prod.ext (statement_fst h) ?_
  have hclosing := Scope.closing_of_acquire g p.settings line log
  rw [statement_snd]
  rw [Scope.acquire, Log.start, h] at hclosing ⊢
  simp only at hclosing ⊢
  rw [hclosing, runs_uses]
  rfl

theorem Fares.statement_eq {completion : Completion} {release : Except EngineError Unit}
    (h : p.Fares line completion release) :
    (p.statement line log).1 = conclude line completion release := by
  obtain ⟨engine, hstart, hrun, hrelease⟩ := h
  rw [statement_fst hstart, hrun, hrelease]

/-- A parser gives what it owes. -/
theorem answers_statement (p : Parser g) (line : String) (log : Log) :
    p.Answers line (p.statement line log).1 := by
  cases hstart : g.start p.settings line with
  | error e =>
    rw [statement_of_refusal hstart]
    by_cases he : e = .outOfMemory
    · subst he
      exact .exhausted hstart
    · have hrefusal : e.asRefusal = .unknown ("could not start the grammar engine: " ++ e.message) := by
        cases e <;> first | rfl | contradiction
      rw [hrefusal]
      exact .refused hstart he
  | ok engine =>
    -- nothing else matters of an engine than how it runs and how it is released
    have hfares : p.Fares line (g.run engine).1 (g.release (g.run engine).2) :=
      ⟨engine, hstart, rfl, rfl⟩
    rw [statement_of_engine hstart]
    generalize (g.run engine).1 = completion, g.release (g.run engine).2 = release at hfares
    cases completion with
    | aborted => exact .aborted hfares
    | returned result =>
      cases release with
      | error e =>
        cases result <;> exact .leaked hfares
      | ok released =>
        cases result with
        | ok t => exact .tree hfares
        | error e =>
          cases e with
          | invalidToken lexeme span => exact .invalidToken hfares
          | syntaxError message span => exact .syntaxError hfares
          | outOfMemory => exact .outOfMemory hfares
          | other message => exact .other hfares

/-- What a parser owes for a line is what it gives. -/
theorem Answers.statement_eq (h : p.Answers line o) (log : Log) : (p.statement line log).1 = o := by
  cases h with
  | exhausted hstart => rw [statement_of_refusal hstart]; rfl
  | @refused e hstart he =>
    rw [statement_of_refusal hstart]
    cases e <;> first | rfl | contradiction
  | aborted hfares => exact hfares.statement_eq
  | @leaked result e hfares =>
    rw [hfares.statement_eq]
    cases result <;> rfl
  | invalidToken hfares => exact hfares.statement_eq
  | syntaxError hfares => exact hfares.statement_eq
  | outOfMemory hfares => exact hfares.statement_eq
  | other hfares => exact hfares.statement_eq
  | tree hfares => exact hfares.statement_eq

/-- A parser gives an outcome exactly if it owes it. -/
theorem statement_eq_iff_answers : (p.statement line log).1 = o ↔ p.Answers line o := by
  constructor
  · rintro rfl
    exact answers_statement p line log
  · intro h
    exact h.statement_eq log

/-- Nothing that engines did before matters. -/
theorem statement_fst_eq (p : Parser g) (line : String) (log log' : Log) :
    (p.statement line log).1 = (p.statement line log').1 :=
  (answers_statement p line log').statement_eq log

/-! ### Steps -/

/-- One statement adds a refusal to the log, or an engine that is started, run and released. -/
theorem trace_statement :
    (p.statement line log).2.trace = log.trace ++
      match g.start p.settings line with
      | .error _ => [.refused line]
      | .ok _ => [.started log.issued line, .ran log.issued, .released log.issued] := by
  cases hstart : g.start p.settings line with
  | error e => rw [statement_of_refusal hstart, Log.trace_add]
  | ok engine =>
    rw [statement_of_engine hstart]
    simp [Log.trace]

/-- An engine is asked for once, with the text of the line. -/
theorem lines_statement : (p.statement line log).2.lines = log.lines ++ [line] := by
  rw [Log.lines, trace_statement, List.filterMap_append]
  cases g.start p.settings line <;> rfl

end Parser

end ExprForest

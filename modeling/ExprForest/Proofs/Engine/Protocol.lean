import ExprForest.Proofs.Statement.Failures

namespace ExprForest.Standard.Engine

/-!
# Calls of one engine

An engine may be run and released in any order and any number of times.  What it answers depends on what it
was called for before, and only its very first call can give what its line is worth.

* `Call`, `Answer`, `answers` — calls of an engine one after another, and what they give;
* `call_snd` — what one call does to the phase, and `after_start` — what many calls do to it;
* `answer_run`, `answer_release` — the answer to a call, from the calls before it;
* `filter_isOutcome_of_ne_fresh`, `filter_isOutcome_start` — an engine gives no outcome but at its first call;
* `one_outcome` — put together.
-/

/-- What an engine can be called for. -/
inductive Call where
  | run | release
  deriving DecidableEq

/-- What a call gives. -/
inductive Answer where
  | ran (result : Except EngineError Tree)
  | released (result : Except EngineError Unit)

/-- Whether an answer tells what the line is worth.  The other answers to a run blame the order of the
    calls. -/
def Answer.isOutcome : Answer → Bool
  | ran (.error (.other _)) => false
  | ran _ => true
  | released _ => false

/-- Calls an engine. -/
def call (e : Engine) : Call → Answer × Engine
  | .run => (.ran e.run.1, e.run.2)
  | .release => (.released e.release.1, e.release.2)

/-- The answers to calls one after another. -/
def answers (e : Engine) : List Call → List Answer
  | [] => []
  | c :: cs => (e.call c).1 :: (e.call c).2.answers cs

/-- The engine behind calls one after another. -/
def after (e : Engine) (cs : List Call) : Engine :=
  cs.foldl (fun e c => (e.call c).2) e

variable {e : Engine}

/-! ### Phases -/

/-- The phase behind a call: a release is for good, and the first run uses the engine up, whatever it
    gives. -/
def next : Phase → Call → Phase
  | _, .release => .released
  | .released, .run => .released
  | _, .run => .spent

theorem call_snd (e : Engine) (c : Call) : (e.call c).2 = { e with phase := next e.phase c } := by
  obtain ⟨line, maxNesting, phase⟩ := e
  cases c <;> cases phase <;> rfl

theorem after_concat (e : Engine) (cs : List Call) (c : Call) :
    e.after (cs ++ [c]) = ((e.after cs).call c).2 := by
  rw [after, List.foldl_append]
  rfl

/-- The phase behind many calls. -/
theorem after_start (settings : Settings) (line : String) (cs : List Call) :
    (start settings line).after cs =
      ⟨line, settings.maxNesting,
        if .release ∈ cs then .released else if .run ∈ cs then .spent else .fresh⟩ := by
  induction cs using List.reverseRecOn with
  | nil => rfl
  | append_singleton cs c ih =>
    rw [after_concat, call_snd, ih]
    by_cases hrelease : .release ∈ cs <;> by_cases hrun : .run ∈ cs <;> cases c <;>
      simp [hrelease, hrun, next]

/-! ### Answers -/

theorem length_answers (e : Engine) (cs : List Call) : (e.answers cs).length = cs.length := by
  induction cs generalizing e with
  | nil => rfl
  | cons c cs ih => rw [answers, List.length_cons, List.length_cons, ih]

theorem answers_append (e : Engine) (cs cs' : List Call) :
    e.answers (cs ++ cs') = e.answers cs ++ (e.after cs).answers cs' := by
  induction cs generalizing e with
  | nil => rfl
  | cons c cs ih => rw [List.cons_append, answers, answers, ih, List.cons_append]; rfl

/-- The answer to a call behind others. -/
theorem answers_getElem? (e : Engine) (before : List Call) (c : Call) (behind : List Call) :
    (e.answers (before ++ c :: behind))[before.length]? = some ((e.after before).call c).1 := by
  rw [answers_append, ← length_answers e before, List.getElem?_append_right (Nat.le_refl _),
    Nat.sub_self]
  rfl

/-- The answer to a run behind other calls. -/
theorem answer_run (settings : Settings) (line : String) (before behind : List Call) :
    ((start settings line).answers (before ++ .run :: behind))[before.length]? = some (.ran
      (if .release ∈ before then .error (.other "engine used after disposal")
      else if .run ∈ before then .error (.other "engine already produced its result")
      else Statement.outcome settings.maxNesting line)) := by
  rw [answers_getElem?, after_start]
  by_cases hrelease : .release ∈ before
  · rw [if_pos hrelease, if_pos hrelease]
    rfl
  · rw [if_neg hrelease, if_neg hrelease]
    by_cases hrun : .run ∈ before
    · rw [if_pos hrun, if_pos hrun]
      rfl
    · rw [if_neg hrun, if_neg hrun]
      rfl

/-- The answer to a release behind other calls. -/
theorem answer_release (settings : Settings) (line : String) (before behind : List Call) :
    ((start settings line).answers (before ++ .release :: behind))[before.length]? = some (.released
      (if .release ∈ before then .error (.other "engine disposed twice") else .ok ())) := by
  rw [answers_getElem?, after_start]
  by_cases hrelease : .release ∈ before
  · rw [if_pos hrelease, if_pos hrelease]
    rfl
  · rw [if_neg hrelease, if_neg hrelease]
    by_cases hrun : .run ∈ before
    · rw [if_pos hrun]
      rfl
    · rw [if_neg hrun]
      rfl

/-- An engine that has run or is released gives no outcome any more. -/
theorem filter_isOutcome_of_ne_fresh (h : e.phase ≠ .fresh) (cs : List Call) :
    (e.answers cs).filter Answer.isOutcome = [] := by
  induction cs generalizing e with
  | nil => rfl
  | cons c cs ih =>
    have hnext : (e.call c).2.phase ≠ .fresh := by
      rw [call_snd]
      cases c <;> cases e.phase <;> nofun
    have hanswer : (e.call c).1.isOutcome = false := by
      cases c with
      | release => rfl
      | run =>
        rw [call, run]
        cases hphase : e.phase with
        | fresh => exact absurd hphase h
        | spent => rfl
        | released => rfl
    rw [answers, List.filter_cons_of_neg (by rw [hanswer]; decide), ih hnext]

/-- What a line is worth is never a complaint about the order of calls. -/
theorem outcome_ne_other (limit : Nat) (line message : String) :
    Statement.outcome limit line ≠ .error (.other message) := by
  intro h
  obtain ⟨before, inside, hstands⟩ := Statement.exists_standsAt h
  cases hstands

theorem isOutcome_outcome (limit : Nat) (line : String) :
    (Answer.ran (Statement.outcome limit line)).isOutcome = true := by
  cases houtcome : Statement.outcome limit line with
  | ok t => rfl
  | error e =>
    cases e with
    | other message => exact absurd houtcome (outcome_ne_other limit line message)
    | _ => rfl

/-- A fresh engine gives an outcome only if it is run at once. -/
theorem filter_isOutcome_start (settings : Settings) (line : String) (cs : List Call) :
    ((start settings line).answers cs).filter Answer.isOutcome =
      if cs.head? = some .run then [.ran (Statement.outcome settings.maxNesting line)] else [] := by
  cases cs with
  | nil => rfl
  | cons c cs =>
    rw [answers, List.head?_cons]
    have hspent : ((start settings line).call c).2.phase ≠ .fresh := by cases c <;> nofun
    cases c with
    | release => exact filter_isOutcome_of_ne_fresh hspent cs
    | run =>
      have hanswer : ((start settings line).call .run).1 =
        .ran (Statement.outcome settings.maxNesting line) := rfl
      rw [hanswer, List.filter_cons_of_pos (isOutcome_outcome _ _),
        filter_isOutcome_of_ne_fresh hspent, if_pos rfl]

/-- **One outcome.**  Whatever an engine is called for, in whatever order and however often: a run gives what
    the line is worth, its tokens looked at first and its grammar then, if nothing was called for before, and
    otherwise fails, and says why; a release succeeds if it is the first one, and otherwise fails.  Hence an
    engine gives at most one outcome, namely if its first call is a run, and a run that fails uses it up as one
    that succeeds does. -/
theorem one_outcome (settings : Settings) (line : String) (cs : List Call) :
    let given := (start settings line).answers cs
    given.length = cs.length ∧
    (∀ before behind, cs = before ++ .run :: behind →
      (.run ∉ before → .release ∉ before →
        given[before.length]? = some (.ran (Statement.outcome settings.maxNesting line))) ∧
      (.run ∈ before → .release ∉ before →
        given[before.length]? = some (.ran (.error (.other "engine already produced its result")))) ∧
      (.release ∈ before →
        given[before.length]? = some (.ran (.error (.other "engine used after disposal"))))) ∧
    (∀ before behind, cs = before ++ .release :: behind →
      (.release ∉ before → given[before.length]? = some (.released (.ok ()))) ∧
      (.release ∈ before →
        given[before.length]? = some (.released (.error (.other "engine disposed twice"))))) ∧
    (∀ message, Statement.outcome settings.maxNesting line ≠ .error (.other message)) ∧
    given.filter Answer.isOutcome =
      if cs.head? = some .run then [.ran (Statement.outcome settings.maxNesting line)] else [] := by
  intro given
  refine ⟨length_answers _ cs, ?_, ?_, outcome_ne_other _ _, filter_isOutcome_start settings line cs⟩
  · rintro before behind rfl
    have hanswer := answer_run settings line before behind
    refine ⟨fun hrun hrelease => ?_, fun hrun hrelease => ?_, fun hrelease => ?_⟩
    · rwa [if_neg hrelease, if_neg hrun] at hanswer
    · rwa [if_neg hrelease, if_pos hrun] at hanswer
    · rwa [if_pos hrelease] at hanswer
  · rintro before behind rfl
    have hanswer := answer_release settings line before behind
    refine ⟨fun hrelease => ?_, fun hrelease => ?_⟩
    · rwa [if_neg hrelease] at hanswer
    · rwa [if_pos hrelease] at hanswer

end ExprForest.Standard.Engine

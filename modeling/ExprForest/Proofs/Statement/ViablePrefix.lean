import ExprForest.Proofs.Lexical.Nesting
import ExprForest.Proofs.Lexical.Rules
import ExprForest.Proofs.Statement.Completeness

namespace ExprForest.Statement

/-!
# Viable prefixes

The reader stops no earlier and no later than it must.

* `State.Reaches.depth_eq` — the reader keeps a frame for each open parenthesis;
* `State.Reaches.viable` — whatever the reader took can be completed: an operand if one is missing, then
  a closing parenthesis for each open one, which opens no further level;
* `State.Reaches.not_derives` — no expression starts with the lexemes taken and one that stops the
  reader.
-/

variable {s s' s'' : State} {context : Context} {l : Lexeme} {ls ms : List Lexeme} {t : Tree}

/-! ### Open parentheses -/

/-- What is pending in a state. -/
def State.pending : State → Context
  | operand context => context
  | name context _ => context
  | complete context _ => context

/-- How many parentheses are open in a state. -/
def State.depth (s : State) : Nat :=
  s.pending.frames.length

theorem Context.depth_resume (h : context.resume t l = .ok s') :
    s'.depth = l.depthAfter context.frames.length := by
  cases Context.resumes h <;> rfl

/-- One lexeme changes the number of open parentheses as it says. -/
theorem State.depth_step (h : s.step l = .ok s') : s'.depth = l.depthAfter s.depth := by
  cases s with
  | operand context =>
    cases l with
    | number text =>
      rw [State.step] at h
      split at h
      · obtain rfl := Except.ok.inj h
        rfl
      · cases h
    | name text =>
      obtain rfl := Except.ok.inj h
      rfl
    | openParen =>
      obtain rfl := Except.ok.inj h
      rfl
    | _ => cases h
  | name context text =>
    by_cases hl : l = .openParen
    · subst hl
      obtain rfl := Except.ok.inj h
      rfl
    · rw [State.step_name hl] at h
      exact Context.depth_resume h
  | complete context t => exact Context.depth_resume h

/-- The reader keeps a frame for each parenthesis that is open behind the lexemes it took. -/
theorem State.Reaches.depth_eq (h : s.Reaches ls s') :
    s'.depth = ls.foldl Lexeme.depthAfter s.depth := by
  induction h with
  | refl => rfl
  | step hstep _ ih => rw [ih, State.depth_step hstep, List.foldl_cons]

/-! ### Completions -/

/-- A closing parenthesis for each open one ends the line. -/
theorem State.Rests.exists_finish (h : s.Rests context t) :
    ∃ s' u, s.Reaches (List.replicate context.frames.length .closeParen) s' ∧ s'.finish = .ok u := by
  obtain ⟨level, frames⟩ := context
  -- each closing parenthesis takes one frame off and leaves a complete operand
  induction frames generalizing s level t with
  | nil => exact ⟨s, level.close t, .refl, h.finish⟩
  | cons frame frames ih =>
    cases frame with
    | group outer =>
      obtain ⟨s', u, hreach, hfinish⟩ := ih outer (.complete (t := level.close t))
      exact ⟨s', u, .step (h.step (by simp)) hreach, hfinish⟩
    | call callee arguments outer =>
      obtain ⟨s', u, hreach, hfinish⟩ :=
        ih outer (.complete (t := .node .call (.identifier callee) (chain arguments (level.close t))))
      exact ⟨s', u, .step (h.step (by simp)) hreach, hfinish⟩

/-- The operand that a state misses, if it misses one. -/
def State.missing : State → List Lexeme
  | operand _ => [.name ['x']]
  | _ => []

/-- The lexemes that complete a line from a state on. -/
def State.completion (s : State) : List Lexeme :=
  s.missing ++ List.replicate s.depth .closeParen

theorem State.wellFormed_completion (s : State) : ∀ l ∈ s.completion, l.WellFormed := by
  intro l hl
  rcases List.mem_append.mp hl with hl | hl
  · cases s with
    | operand context =>
      obtain rfl := List.mem_singleton.mp hl
      exact ⟨'x', [], rfl, rfl, nofun⟩
    | name _ _ => cases hl
    | complete _ _ => cases hl
  · rw [List.eq_of_mem_replicate hl]
    trivial

theorem State.exists_finish (s : State) :
    ∃ s' t, s.Reaches s.completion s' ∧ s'.finish = .ok t := by
  cases s with
  | operand context =>
    have hrest : (State.name context (String.ofList ['x'])).Rests context _ := .name
    obtain ⟨s', t, hreach, hfinish⟩ := hrest.exists_finish
    exact ⟨s', t, .step rfl hreach, hfinish⟩
  | name context text =>
    have hrest : (State.name context text).Rests context _ := .name
    exact hrest.exists_finish
  | complete context t =>
    have hrest : (State.complete context t).Rests context t := .complete
    exact hrest.exists_finish

/-- Completing a line opens no further level. -/
theorem State.peak_completion (s : State) : Lexeme.peak s.depth s.completion = s.depth := by
  cases s with
  | operand context =>
    show max _ (Lexeme.peak _ (List.replicate _ _)) = _
    rw [Lexeme.peak_closers]
    exact Nat.max_self _
  | name _ _ => exact Lexeme.peak_closers _ _
  | complete _ _ => exact Lexeme.peak_closers _ _

/-- **Not too early.**  The lexemes that the reader took start an expression that opens no further
    level. -/
theorem State.Reaches.viable (h : State.initial.Reaches ls s) :
    ∃ t, Derives .expression (ls ++ s.completion) t ∧
      Lexeme.peak 0 (ls ++ s.completion) = Lexeme.peak 0 ls := by
  obtain ⟨s', t, hreach, hfinish⟩ := s.exists_finish
  refine ⟨t, (State.reads_initial.reaches (h.append hreach)).finish hfinish, ?_⟩
  have hdepth : s.depth = ls.foldl Lexeme.depthAfter 0 := h.depth_eq
  -- the completion only closes what is open
  rw [Lexeme.peak_append, ← hdepth, State.peak_completion, hdepth]
  exact Nat.max_eq_left (Lexeme.foldl_depthAfter_le_peak 0 ls)

/-- **Not too late.**  No expression starts with the lexemes that the reader took and one that stops
    it. -/
theorem State.Reaches.not_derives {stop : Stop} (h : State.initial.Reaches ls s)
    (hstop : s.step l = .error stop) (ms : List Lexeme) (t : Tree) :
    ¬Derives .expression (ls ++ l :: ms) t := by
  intro hderives
  obtain ⟨_, hreach, -⟩ := hderives.reaches
  -- a run over the whole list passes the state that the lexeme stopped
  obtain ⟨s', hreach', hrest⟩ := hreach.split
  obtain rfl := h.unique hreach'
  cases hrest with
  | step hstep _ => cases hstop.symm.trans hstep

end ExprForest.Statement

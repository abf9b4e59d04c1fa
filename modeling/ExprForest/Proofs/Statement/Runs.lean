import ExprForest.Statement.Machine
import Mathlib

namespace ExprForest.Statement

/-!
# Runs of the reader

* `Context.Resumes` — what the reader does behind a complete operand, where it goes on: `Context.resumes`;
* `State.Reaches` — some lexemes lead the reader from one state to another;
* `run_eq_ok_iff`, `run_eq_error_iff` — a token list is read, or stopped at a token or at its end,
  exactly as the states reached tell.
-/

variable {s s' s'' : State} {l : Lexeme} {ls ms : List Lexeme} {t : Tree} {ts : List Token}
variable {context : Context} {stop : Stop}

/-- The state to which a lexeme leads behind the complete operand `t`.  Behind a sign or a comma an operand
    must follow, and a closing parenthesis completes the operand that it ends. -/
inductive Context.Resumes (t : Tree) : Context → Lexeme → State → Prop where
  | equals {level : Level} {frames : List Frame} :
      Resumes t ⟨level, frames⟩ .equals (.operand ⟨level.afterEquals t, frames⟩)
  | additive {level : Level} {frames : List Frame} {sign : Additive} :
      Resumes t ⟨level, frames⟩ (.additive sign) (.operand ⟨level.afterAdditive t sign, frames⟩)
  | multiplicative {level : Level} {frames : List Frame} {sign : Multiplicative} :
      Resumes t ⟨level, frames⟩ (.multiplicative sign)
        (.operand ⟨level.afterMultiplicative t sign, frames⟩)
  | caret {level : Level} {frames : List Frame} :
      Resumes t ⟨level, frames⟩ .caret (.operand ⟨level.afterCaret t, frames⟩)
  | closeGroup {level outer : Level} {frames : List Frame} :
      Resumes t ⟨level, .group outer :: frames⟩ .closeParen
        (.complete ⟨outer, frames⟩ (level.close t))
  | closeCall {level outer : Level} {frames : List Frame} {callee : String} {arguments : Option Tree} :
      Resumes t ⟨level, .call callee arguments outer :: frames⟩ .closeParen
        (.complete ⟨outer, frames⟩
          (.node .call (.identifier callee) (chain arguments (level.close t))))
  | comma {level outer : Level} {frames : List Frame} {callee : String} {arguments : Option Tree} :
      Resumes t ⟨level, .call callee arguments outer :: frames⟩ .comma
        (.operand ⟨.empty, .call callee (some (chain arguments (level.close t))) outer :: frames⟩)

/-- The reader goes on in one of these ways, or stops for want of an operator. -/
theorem Context.resume_cases (context : Context) (t : Tree) (l : Lexeme) :
    (∃ s, context.resume t l = .ok s ∧ context.Resumes t l s) ∨
      context.resume t l = .error context.missing := by
  obtain ⟨level, frames⟩ := context
  cases l with
  | equals => exact .inl ⟨_, rfl, .equals⟩
  | additive sign => exact .inl ⟨_, rfl, .additive⟩
  | multiplicative sign => exact .inl ⟨_, rfl, .multiplicative⟩
  | caret => exact .inl ⟨_, rfl, .caret⟩
  | closeParen =>
    rcases frames with _ | ⟨_ | _, frames⟩
    · exact .inr rfl
    · exact .inl ⟨_, rfl, .closeGroup⟩
    · exact .inl ⟨_, rfl, .closeCall⟩
  | comma =>
    rcases frames with _ | ⟨_ | _, frames⟩
    · exact .inr rfl
    · exact .inr rfl
    · exact .inl ⟨_, rfl, .comma⟩
  | _ => exact .inr rfl

theorem Context.resumes (h : context.resume t l = .ok s) : context.Resumes t l s := by
  rcases context.resume_cases t l with ⟨s', hresume, hresumes⟩ | hmissing
  · obtain rfl := Except.ok.inj (hresume.symm.trans h)
    exact hresumes
  · cases hmissing.symm.trans h

theorem Context.resume_eq_error (h : context.resume t l = .error stop) : stop = context.missing := by
  rcases context.resume_cases t l with ⟨s', hresume, -⟩ | hmissing
  · cases hresume.symm.trans h
  · exact Except.error.inj (h.symm.trans hmissing)

/-- A name is an operand unless a parenthesis makes it a callee. -/
theorem State.step_name {context : Context} {callee : String} (hl : l ≠ .openParen) :
    (State.name context callee).step l = context.resume (.identifier callee) l := by
  rw [State.step]
  exact hl

/-- Lexemes that lead the reader from one state to another. -/
inductive State.Reaches : State → List Lexeme → State → Prop where
  | refl {s : State} :
      Reaches s [] s
  | step {s s' s'' : State} {l : Lexeme} {ls : List Lexeme} :
      s.step l = .ok s' → Reaches s' ls s'' →
      Reaches s (l :: ls) s''

namespace State.Reaches

/-- One lexeme. -/
theorem single (h : s.step l = .ok s') : s.Reaches [l] s' :=
  .step h .refl

/-- Two stretches in succession. -/
theorem append (h : s.Reaches ls s') (h' : s'.Reaches ms s'') : s.Reaches (ls ++ ms) s'' := by
  induction h with
  | refl => exact h'
  | step hstep _ ih => exact .step hstep (ih h')

/-- A run over two stretches passes a state between them. -/
theorem split (h : s.Reaches (ls ++ ms) s'') : ∃ s', s.Reaches ls s' ∧ s'.Reaches ms s'' := by
  induction ls generalizing s with
  | nil => exact ⟨s, .refl, h⟩
  | cons l ls ih =>
    cases h with
    | step hstep h =>
      obtain ⟨s', hreach, hreach'⟩ := ih h
      exact ⟨s', .step hstep hreach, hreach'⟩

/-- The state behind some lexemes is determined by them. -/
theorem unique (h : s.Reaches ls s') (h' : s.Reaches ls s'') : s' = s'' := by
  induction h with
  | refl =>
    cases h'
    rfl
  | step hstep _ ih =>
    cases h' with
    | step hstep' h' =>
      obtain rfl := Except.ok.inj (hstep.symm.trans hstep')
      exact ih h'

end State.Reaches

/-! ### Outcomes -/

/-- A run goes on behind the tokens that were read. -/
theorem run_append {us : List Token} (h : s.Reaches (ts.map Token.lexeme) s') :
    run s (ts ++ us) = run s' us := by
  induction ts generalizing s with
  | nil =>
    cases h
    rfl
  | cons t ts ih =>
    cases h with
    | step hstep h =>
      rw [List.cons_append, run, hstep]
      exact ih h

/-- Either all tokens are read, or there is a first one that cannot continue. -/
theorem reaches_or_stops (s : State) (ts : List Token) :
    (∃ s', s.Reaches (ts.map Token.lexeme) s') ∨
      ∃ before t after s' stop, ts = before ++ t :: after ∧
        s.Reaches (before.map Token.lexeme) s' ∧ s'.step t.lexeme = .error stop := by
  induction ts generalizing s with
  | nil => exact .inl ⟨s, .refl⟩
  | cons t ts ih =>
    -- the reader stops at this token, or goes on from the state behind it
    cases hstep : s.step t.lexeme with
    | error stop => exact .inr ⟨[], t, ts, s, stop, rfl, .refl, hstep⟩
    | ok s' =>
      rcases ih s' with ⟨s'', h⟩ | ⟨before, t', after, s'', stop, rfl, h, hstop⟩
      · exact .inl ⟨s'', .step hstep h⟩
      · exact .inr ⟨t :: before, t', after, s'', stop, rfl, .step hstep h, hstop⟩

/-- A token list has a tree exactly if it leads to a state in which the line may end. -/
theorem run_eq_ok_iff :
    run s ts = .ok t ↔ ∃ s', s.Reaches (ts.map Token.lexeme) s' ∧ s'.finish = .ok t := by
  constructor
  · intro h
    rcases reaches_or_stops s ts with ⟨s', hreach⟩ | ⟨before, t', after, s', stop, rfl, hreach, hstop⟩
    · rw [← List.append_nil ts, run_append hreach, run] at h
      refine ⟨s', hreach, ?_⟩
      split at h
      · rename_i hfinish
        rw [hfinish, Except.ok.inj h]
      · cases h
    · rw [run_append hreach, run, hstop] at h
      cases h
  · rintro ⟨s', hreach, hfinish⟩
    rw [← List.append_nil ts, run_append hreach, run, hfinish]

/-- A token list has no tree exactly if a token cannot continue, or the line may not end behind it. -/
theorem run_eq_error_iff {r : Rejection} :
    run s ts = .error r ↔
      ∃ before after s', ts = before ++ after ∧ s.Reaches (before.map Token.lexeme) s' ∧
        r.token = after.head? ∧
        match after with
        | [] => s'.finish = .error r.stop
        | t :: _ => s'.step t.lexeme = .error r.stop := by
  constructor
  · intro h
    rcases reaches_or_stops s ts with ⟨s', hreach⟩ | ⟨before, t', after, s', stop, rfl, hreach, hstop⟩
    · rw [← List.append_nil ts, run_append hreach, run] at h
      refine ⟨ts, [], s', (List.append_nil ts).symm, hreach, ?_⟩
      split at h
      · cases h
      · rename_i hfinish
        obtain rfl := Except.error.inj h
        exact ⟨rfl, hfinish⟩
    · rw [run_append hreach, run, hstop] at h
      obtain rfl := Except.error.inj h
      exact ⟨before, t' :: after, s', rfl, hreach, rfl, hstop⟩
  · rintro ⟨before, after, s', rfl, hreach, htoken, hstop⟩
    obtain ⟨stop, token⟩ := r
    obtain rfl : token = after.head? := htoken
    rw [run_append hreach]
    cases after with
    | nil => rw [run, hstop]; rfl
    | cons t after => rw [run, hstop]; rfl

end ExprForest.Statement

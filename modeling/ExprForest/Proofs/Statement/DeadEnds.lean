import ExprForest.Proofs.Statement.Completeness
import ExprForest.Proofs.Statement.Parts

namespace ExprForest.Statement

/-!
# Lexemes that lead nowhere

Lexemes behind which the reader cannot come to the end of a line, whatever it has read before.

* `State.Refuses`, `Barren` — no line ends with some lexemes from a state, and from any state in which an
  operand must follow;
* `Barren.behind` — what is barren is so behind a sign or an opening parenthesis too;
* `Barren.openParen`, `Barren.name_openParen` — parentheses that are not closed;
* `Barren.not_derives`, `Derives.not_derives_append` — nothing is derived from what is barren, and
  nothing from an expression behind which something looser follows.
-/

variable {l : Lexeme} {ls ms bs rest : List Lexeme} {t : Tree}

/-- The reader cannot come to the end of the line behind some lexemes. -/
def State.Refuses (s : State) (ls : List Lexeme) : Prop :=
  ∀ s', s.Reaches ls s' → ∀ t, s'.finish ≠ .ok t

/-- Wherever an operand must follow, the line cannot go on with some lexemes to its end. -/
def Barren (ls : List Lexeme) : Prop :=
  ∀ context, (State.operand context).Refuses ls

/-- The line goes on with something looser, or not at all. -/
def Ends (n : Nat) (ls : List Lexeme) : Prop :=
  ∀ l ms, ls = l :: ms → n < l.looseness

theorem State.refuses_cons {s : State} (h : ∀ s', s.step l = .ok s' → s'.Refuses ls) :
    s.Refuses (l :: ls) := by
  intro s' hreach
  cases hreach with
  | step hstep hreach => exact h _ hstep s' hreach

theorem State.Reaches.refuses {s s' : State} (h : s.Reaches ms s') (h' : s'.Refuses ls) :
    s.Refuses (ms ++ ls) := by
  intro s'' hreach
  obtain ⟨s₁, h₁, h₂⟩ := hreach.split
  obtain rfl := h.unique h₁
  exact h' s'' h₂

/-- Behind a sign between operands, and behind an opening parenthesis, an operand must follow. -/
theorem State.exists_operand_of_step {s s' : State} (hl : l.looseness ≤ 5) (h : s.step l = .ok s') :
    ∃ context, s' = .operand context := by
  have hresume : ∀ (context : Context) t, l ≠ .openParen → context.resume t l = .ok s' →
      ∃ context', s' = .operand context' := by
    intro context t hopen h
    cases Context.resumes h with
    | closeGroup => exact absurd hl (by decide)
    | closeCall => exact absurd hl (by decide)
    | _ => exact ⟨_, rfl⟩
  by_cases hopen : l = .openParen
  · subst hopen
    cases s with
    | complete context t => cases h
    | _ => exact ⟨_, (Except.ok.inj h).symm⟩
  · cases s with
    | operand context =>
      cases l <;> first | exact absurd rfl hopen | exact absurd hl (by decide : ¬7 ≤ 5) | cases h
    | name context callee => exact hresume _ _ hopen ((State.step_name hopen).symm.trans h)
    | complete context t => exact hresume _ _ hopen h

/-- Behind a closing parenthesis an operand is complete. -/
theorem State.exists_complete_of_step {s s' : State} (h : s.step .closeParen = .ok s') :
    ∃ context t, s' = .complete context t := by
  have hresume : ∀ (context : Context) t, context.resume t .closeParen = .ok s' →
      ∃ context' t', s' = .complete context' t' := by
    intro context t h
    cases Context.resumes h with
    | closeGroup => exact ⟨_, _, rfl⟩
    | closeCall => exact ⟨_, _, rfl⟩
  cases s with
  | operand context => cases h
  | name context callee => exact hresume _ _ h
  | complete context t => exact hresume _ _ h

/-- Behind a complete operand, a lexeme that cannot continue, or an end where there cannot be one. -/
theorem State.Rests.refuses {s : State} {context : Context} (h : s.Rests context t)
    (hstep : ∀ l ms, ls = l :: ms → l ≠ .openParen ∧ ∃ stop, context.resume t l = .error stop)
    (hfinish : ls = [] → ∃ stop, context.finish t = .error stop) : s.Refuses ls := by
  rcases ls with _ | ⟨l, ms⟩
  · intro s' hreach u hu
    cases hreach
    obtain ⟨stop, hstop⟩ := hfinish rfl
    rw [h.finish, hstop] at hu
    cases hu
  · obtain ⟨hopen, stop, hstop⟩ := hstep l ms rfl
    refine State.refuses_cons fun s' hs' => ?_
    rw [h.step hopen, hstop] at hs'
    cases hs'

namespace Barren

/-- What is barren is so behind a sign or an opening parenthesis too. -/
theorem behind (h : Barren bs) (hl : l.looseness ≤ 5) (ms : List Lexeme) : Barren (ms ++ l :: bs) := by
  intro context s' hreach
  obtain ⟨s, -, hreach⟩ := hreach.split
  refine State.refuses_cons (fun s₁ hstep => ?_) s' hreach
  obtain ⟨context', rfl⟩ := State.exists_operand_of_step hl hstep
  exact h context'

/-- Behind a closing parenthesis no other one opens. -/
theorem closeParen_openParen (ms bs : List Lexeme) :
    Barren (ms ++ .closeParen :: .openParen :: bs) := by
  intro context s' hreach
  obtain ⟨s, -, hreach⟩ := hreach.split
  refine State.refuses_cons (fun s₁ hstep => ?_) s' hreach
  obtain ⟨context', t, rfl⟩ := State.exists_complete_of_step hstep
  exact State.refuses_cons fun s₂ hstep => by cases hstep

/-- An open group whose expression is not followed by its closing parenthesis. -/
theorem openParen (hms : Derives .expression ms t) (hends : Ends 4 rest)
    (hclose : ∀ ls, rest ≠ .closeParen :: ls) : Barren (.openParen :: (ms ++ rest)) := by
  intro context
  obtain ⟨s, level, u, hreach, hrest, -⟩ := hms.completes [] (.group context.level :: context.frames)
  refine (State.Reaches.step rfl hreach).refuses (hrest.refuses ?_ fun _ => ⟨_, rfl⟩)
  intro l ls hl
  have hloose := hends l ls hl
  cases l with
  | number _ => exact ⟨nofun, _, rfl⟩
  | name _ => exact ⟨nofun, _, rfl⟩
  | comma => exact ⟨nofun, _, rfl⟩
  | closeParen => exact absurd hl (hclose ls)
  | _ => simp [Lexeme.looseness] at hloose

/-- A call whose arguments are not followed by its closing parenthesis. -/
theorem name_openParen {text : List Char} (hms : Derives .arguments ms t) (hends : Ends 5 rest)
    (hclose : ∀ ls, rest ≠ .closeParen :: ls) :
    Barren (.name text :: .openParen :: (ms ++ rest)) := by
  intro context
  obtain ⟨s, level, arguments, u, hreach, hrest, -⟩ :=
    hms.completes (String.ofList text) context.level context.frames
  refine (State.Reaches.step rfl (.step rfl hreach)).refuses (hrest.refuses ?_ fun _ => ⟨_, rfl⟩)
  intro l ls hl
  have hloose := hends l ls hl
  cases l with
  | number _ => exact ⟨nofun, _, rfl⟩
  | name _ => exact ⟨nofun, _, rfl⟩
  | closeParen => exact absurd hl (hclose ls)
  | _ => simp [Lexeme.looseness] at hloose

/-- What is barren derives nothing. -/
theorem not_derives (h : Barren ls) : ¬Derives .expression ls t := by
  intro hderives
  obtain ⟨s, hreach, hfinish⟩ := hderives.reaches
  exact h _ s hreach t hfinish

end Barren

/-- Outside of parentheses, nothing looser than `=` can follow an expression. -/
theorem Derives.not_derives_append {u : Tree} (h : Derives .expression ms t)
    (hends : Ends 4 (l :: rest)) : ¬Derives .expression (ms ++ l :: rest) u := by
  intro hu
  obtain ⟨s, hreach, hfinish⟩ := hu.reaches
  obtain ⟨s', level, v, hreach', hrest, -⟩ := h.completes [] []
  have hrefuses : s'.Refuses (l :: rest) := by
    refine hrest.refuses ?_ nofun
    rintro _ _ ⟨⟩
    have hloose := hends l rest rfl
    cases l with
    | number _ => exact ⟨nofun, _, rfl⟩
    | name _ => exact ⟨nofun, _, rfl⟩
    | comma => exact ⟨nofun, _, rfl⟩
    | closeParen => exact ⟨nofun, _, rfl⟩
    | _ => simp [Lexeme.looseness] at hloose
  exact hreach'.refuses hrefuses s hreach u hfinish

end ExprForest.Statement

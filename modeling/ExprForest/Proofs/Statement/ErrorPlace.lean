import ExprForest.Proofs.Statement.Parsing
import ExprForest.Proofs.Statement.ViablePrefix

namespace ExprForest

/-!
# Where a line stops being a statement

* `Parser.exists_of_rejected` — a line that is rejected for its grammar, told by the search and by the reader;
* `Parser.Viable` — lexemes with which some line that the parser takes starts;
* `Parser.viable_of_reaches` — the lexemes that the reader took are such;
* `Parser.failure_at_first_impossible_token` — the error points at the first token that cannot continue.
-/

open Statement (Derives)

variable {line : String} {log : Log} {ts : List Token}

/-! ### Viable lexemes -/

namespace Parser

variable {p : Parser .standard}

/-- Whether some line that the parser takes starts with some lexemes. -/
def Viable (p : Parser .standard) (ls : List Lexeme) : Prop :=
  ∃ (line : String) (ts : List Token) (more : List Lexeme) (t : Tree),
    Token.Lexes line ts ∧ ts.map Token.lexeme = ls ++ more ∧
      ∀ log, (p.statement line log).1 = .success t

/-- What the reader took of a line starts a line that the parser takes under the same limit. -/
theorem viable_of_reaches {before after : List Token} {s : Statement.State}
    (hlex : Token.Lexes line (before ++ after))
    (hnest : Lexeme.peak 0 ((before ++ after).map Token.lexeme) ≤ p.settings.maxNesting)
    (hreach : Statement.State.initial.Reaches (before.map Token.lexeme) s) :
    p.Viable (before.map Token.lexeme) := by
  obtain ⟨t, hderives, hpeak⟩ := hreach.viable
  have hformed : ∀ l ∈ before.map Token.lexeme ++ s.completion, l.WellFormed := by
    intro l hl
    rcases List.mem_append.mp hl with hl | hl
    · obtain ⟨token, htoken, rfl⟩ := List.mem_map.mp hl
      exact hlex.wellFormed token (List.mem_append_left _ htoken)
    · exact s.wellFormed_completion l hl
  -- the completed lexemes are spelled as a line of their own
  obtain ⟨line', ts', hlex', hmap⟩ := Lexeme.exists_line hformed
  refine ⟨line', ts', s.completion, t, hlex', hmap, fun log => ?_⟩
  rw [statement_eq_success_iff, Statement.outcome_eq_ok_iff]
  refine ⟨ts', hlex', ?_, hmap ▸ hderives⟩
  rw [List.map_append, Lexeme.peak_append] at hnest
  rw [hmap, hpeak]
  exact Nat.le_trans (Nat.le_max_left _ _) hnest

/-! ### The place of the error -/

/-- A line of tokens that keeps to the nesting limit and is rejected.  What the search tried in vain gives its
    failure, and stands where the reader stops. -/
theorem exists_of_rejected (hlex : Token.Lexes line ts)
    (hnest : Lexeme.peak 0 (ts.map Token.lexeme) ≤ p.settings.maxNesting)
    (hreject : ∀ t, (p.statement line log).1 ≠ .success t) :
    ∃ tries before after s stop, ts = before ++ after ∧
      Statement.State.initial.Reaches (before.map Token.lexeme) s ∧
      s.Stops (after.map Token.lexeme) stop ∧ (∀ text, stop ≠ .notANumber text) ∧
      Statement.search line = .error tries ∧
      tries.place = (after.head?.map Token.start).getD line.utf8ByteSize ∧ tries.rules = stop.tried ∧
      (p.statement line log).1 = .failure ((tries.failure line).asFailure line) := by
  have houtcome := Statement.outcome_of_lexes hlex hnest
  cases hread : Statement.read ts with
  | ok t =>
    rw [hread] at houtcome
    exact absurd (statement_eq_success_iff.mpr houtcome) (hreject t)
  | error r =>
    -- the reader took `before`, and stopped at the head of `after` or at the end
    obtain ⟨before, after, s, rfl, hreach, htoken, hstop⟩ := Statement.run_eq_error_iff.mp hread
    have hstops : s.Stops (after.map Token.lexeme) r.stop := by
      cases after <;> exact hstop
    refine ⟨⟨r.offset line, r.stop.tried⟩, before, after, s, r.stop, rfl, hreach, hstops,
      Statement.stop_ne_notANumber hlex hread,
      Statement.search_eq_error hlex (Statement.fits_length hlex) hread, ?_, rfl, ?_⟩
    · show r.offset line = _
      rw [Statement.Rejection.offset_eq, htoken]
    · rw [statement_standard, houtcome, hread, Statement.Tries.failure_eq hlex hread]
      rfl

/-- **Viable prefix.**  A line of tokens that keeps to the nesting limit and is no statement gives a
    syntax error with an empty span.  The span stands at the furthest byte at which the search of the line
    tried rules in vain.  This is the start of a token or the end of the line, such that the lexemes before
    it start a line that the parser takes, and no expression starts with them and that token, or the whole
    line is no expression. -/
theorem failure_at_first_impossible_token (hlex : Token.Lexes line ts)
    (hnest : Lexeme.peak 0 (ts.map Token.lexeme) ≤ p.settings.maxNesting)
    (hreject : ∀ t, (p.statement line log).1 ≠ .success t) :
    ∃ (tries : Statement.Tries) (message : String) (before after : List Token),
      ts = before ++ after ∧
        Statement.search line = .error tries ∧
        tries.place = (after.head?.map Token.start).getD line.utf8ByteSize ∧
        (p.statement line log).1 =
          .failure (.syntaxError message (.point line tries.place) ⟨false, line⟩) ∧
        p.Viable (before.map Token.lexeme) ∧
        match after with
        | [] => ∀ t, ¬Derives .expression (ts.map Token.lexeme) t
        | next :: _ => ∀ more t,
            ¬Derives .expression (before.map Token.lexeme ++ next.lexeme :: more) t := by
  obtain ⟨tries, before, after, s, stop, rfl, hreach, hstops, -, hsearch, hplace, -, hfailure⟩ :=
    exists_of_rejected hlex hnest hreject
  refine ⟨tries, _, before, after, rfl, hsearch, hplace, hfailure, viable_of_reaches hlex hnest hreach, ?_⟩
  cases after with
  | nil =>
    intro t hderives
    refine hreject t (statement_eq_success_iff.mpr (Statement.outcome_eq_ok_iff.mpr ?_))
    exact ⟨_, hlex, hnest, hderives⟩
  | cons next after => exact hreach.not_derives hstops

/-- In `f(x y)` the error stands at the second argument, which no comma precedes.  The search tries the name
    `f` alone when the call fails, but stops there at an earlier byte. -/
theorem failure_at_second_argument :
    ∃ (tries : Statement.Tries) (message : String) (before after : List Token),
      ([⟨.name ['f'], 0⟩, ⟨.openParen, 1⟩, ⟨.name ['x'], 2⟩, ⟨.name ['y'], 4⟩, ⟨.closeParen, 5⟩] :
          List Token) = before ++ after ∧
        Statement.search "f(x y)" = .error tries ∧
        tries.place = (after.head?.map Token.start).getD 6 ∧
        (Parser.standard.statement "f(x y)" .empty).1 =
          .failure (.syntaxError message (.point "f(x y)" tries.place) ⟨false, "f(x y)"⟩) ∧
        Parser.standard.Viable (before.map Token.lexeme) ∧
        match after with
        | [] => ∀ t, ¬Derives .expression
            [.name ['f'], .openParen, .name ['x'], .name ['y'], .closeParen] t
        | next :: _ => ∀ more t,
            ¬Derives .expression (before.map Token.lexeme ++ next.lexeme :: more) t := by
  have hlex : Token.ofLine "f(x y)" = .ok
      [⟨.name ['f'], 0⟩, ⟨.openParen, 1⟩, ⟨.name ['x'], 2⟩, ⟨.name ['y'], 4⟩, ⟨.closeParen, 5⟩] := by
    cbv
  have hfailure : (Parser.standard.statement "f(x y)" .empty).1 = .failure (.syntaxError
      "expected '+', '-', '*', '/', '^' or '=', found 'y'" (.point "f(x y)" 4) ⟨false, "f(x y)"⟩) := by
    cbv
  refine failure_at_first_impossible_token (Token.ofLine_eq_ok_iff.mp hlex) (by decide) ?_
  intro t ht
  cases hfailure.symm.trans ht

end Parser

end ExprForest

import ExprForest.Parser
import ExprForest.Proofs.Statement.Reduction

namespace ExprForest

/-!
# Parsing with the standard grammar

* `Statement.outcome_of_lexes` — what becomes of a line of tokens that keeps to the nesting limit;
* `Statement.outcome_eq_ok_iff` — the lines that have a tree;
* `Parser.statement_standard` — a parser gives what the line amounts to, whatever engines did before;
* `Parser.success_iff_derives` — the lines that a parser takes, with their trees.
-/

open Statement (Derives)

variable {limit : Nat} {line : String} {log : Log} {ts : List Token} {t : Tree}

/-! ### Lines -/

namespace Statement

/-- A line that keeps to the nesting limit is left to the grammar. -/
theorem outcome_of_lexes (hlex : Token.Lexes line ts)
    (hnest : Lexeme.peak 0 (ts.map Token.lexeme) ≤ limit) :
    outcome limit line = (read ts).mapError (Rejection.failure line) := by
  have hdeeper := (Token.firstDeeper?_eq_none_iff (Nat.zero_le limit) ts).mpr hnest
  rw [outcome, Token.ofLine_eq_ok_iff.mpr hlex]
  simp only [hdeeper]
  exact reduce_of_lexes hlex

/-- A line has a tree exactly if it is made of tokens and spaces, keeps to the nesting limit, and its
    lexemes derive the tree. -/
theorem outcome_eq_ok_iff :
    outcome limit line = .ok t ↔
      ∃ ts, Token.Lexes line ts ∧ Lexeme.peak 0 (ts.map Token.lexeme) ≤ limit ∧
        Derives .expression (ts.map Token.lexeme) t := by
  constructor
  · intro h
    -- the two passes before the grammar have raised no error
    cases hscan : Token.ofLine line with
    | error stray =>
      rw [outcome, hscan] at h
      cases h
    | ok ts =>
      cases hdeeper : Token.firstDeeper? limit 0 ts with
      | some paren =>
        rw [outcome, hscan] at h
        simp only [hdeeper] at h
        cases h
      | none =>
        have hlex := Token.ofLine_eq_ok_iff.mp hscan
        have hnest := (Token.firstDeeper?_eq_none_iff (Nat.zero_le limit) ts).mp hdeeper
        refine ⟨ts, hlex, hnest, read_eq_ok_iff.mp ?_⟩
        rw [outcome_of_lexes hlex hnest] at h
        cases hread : read ts with
        | error r =>
          rw [hread] at h
          cases h
        | ok u =>
          rw [hread] at h
          rw [Except.ok.inj h]
  · rintro ⟨ts, hlex, hnest, hderives⟩
    rw [outcome_of_lexes hlex hnest, read_eq_ok_iff.mpr hderives]
    rfl

end Statement

/-! ### Parsers -/

namespace Parser

variable {p : Parser .standard}

/-- A parser over the standard grammar starts, runs and releases an engine that never fails but for its
    line. -/
theorem statement_standard :
    (p.statement line log).1 =
      match Statement.outcome p.settings.maxNesting line with
      | .ok t => .success t
      | .error e => .failure (e.asFailure line) := by
  show settle line (Statement.outcome p.settings.maxNesting line) (.ok ()) = _
  cases Statement.outcome p.settings.maxNesting line <;> rfl

theorem statement_eq_success_iff :
    (p.statement line log).1 = .success t ↔ Statement.outcome p.settings.maxNesting line = .ok t := by
  rw [statement_standard]
  cases Statement.outcome p.settings.maxNesting line with
  | ok u =>
    constructor
    · intro h
      rw [Outcome.success.inj h]
    · intro h
      rw [Except.ok.inj h]
  | error e => exact iff_of_false nofun nofun

/-- **The parser and the grammar agree.**  Whatever the nesting limit, a line gives a tree exactly if it
    is made of tokens and spaces, its parentheses keep to the limit, and its lexemes derive the tree.
    No list of lexemes has two trees, in any category. -/
theorem success_iff_derives :
    (∀ (p : Parser .standard) (log : Log) (line : String) (t : Tree),
      (p.statement line log).1 = .success t ↔
        ∃ ts, Token.Lexes line ts ∧
          Lexeme.peak 0 (ts.map Token.lexeme) ≤ p.settings.maxNesting ∧
          Derives .expression (ts.map Token.lexeme) t) ∧
      ∀ (c : Statement.Category) (ls : List Lexeme),
        ¬∃ t u, t ≠ u ∧ Derives c ls t ∧ Derives c ls u := by
  refine ⟨fun p log line t => ?_, ?_⟩
  · rw [statement_eq_success_iff, Statement.outcome_eq_ok_iff]
  · rintro c ls ⟨t, u, hne, ht, hu⟩
    exact hne (ht.unique hu)

end Parser

end ExprForest

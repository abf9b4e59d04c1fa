import ExprForest.Proofs.Statement.Failures

namespace ExprForest

/-!
# The nesting limit as a threshold

The same line under all limits.  What counts is the peak of its parentheses, `Lexeme.peak`: the highest
number of them that are open at once, where a closing one that closes nothing counts for nothing.

* `Token.exists_of_firstDeeper?` — the parenthesis that opens a level too many is the first behind which
  the count passes the limit;
* `Statement.outcome_of_peak_le`, `Statement.outcome_of_lt_peak` — a line of tokens under the limits from
  its peak on, and under those below;
* `Statement.outcome_of_not_lexes` — a line that is not made of tokens, for which no limit matters;
* `Standard.Engine.limit_is_threshold` — put together for the engine of the line.
-/

open Text (byteLength)

variable {limit limit' depth : Nat} {line : String} {ts : List Token} {t : Tree}

/-! ### The first parenthesis beyond the limit -/

/-- What opens a level beyond the limit is a parenthesis before which just as many are open as the limit
    allows, and nowhere before it more. -/
theorem Token.exists_of_firstDeeper? {paren : Token} (hdepth : depth ≤ limit)
    (h : firstDeeper? limit depth ts = some paren) :
    ∃ before after, ts = before ++ paren :: after ∧ paren.lexeme = .openParen ∧
      Lexeme.peak depth (before.map Token.lexeme) ≤ limit ∧
      (before.map Token.lexeme).foldl Lexeme.depthAfter depth = limit := by
  induction ts generalizing depth with
  | nil => cases h
  | cons t ts ih =>
    rw [firstDeeper?] at h
    by_cases hdeeper : t.lexeme = .openParen ∧ limit < t.lexeme.depthAfter depth
    · rw [if_pos hdeeper] at h
      obtain rfl := Option.some.inj h
      have hopen := hdeeper.1
      have hlt : limit < depth + 1 := by
        have := hdeeper.2
        rwa [hopen] at this
      refine ⟨[], ts, rfl, hopen, hdepth, ?_⟩
      show depth = limit
      omega
    · rw [if_neg hdeeper] at h
      -- the count behind `t` keeps to the limit, or `t` would have been the one
      have hnext : t.lexeme.depthAfter depth ≤ limit := by
        by_cases hopen : t.lexeme = .openParen
        · exact Nat.le_of_not_lt fun hlt => hdeeper ⟨hopen, hlt⟩
        · exact Nat.le_trans (Lexeme.depthAfter_le hopen) hdepth
      obtain ⟨before, after, rfl, hopen, hpeak, hbehind⟩ := ih hnext h
      exact ⟨t :: before, after, rfl, hopen, Nat.max_le.mpr ⟨hdepth, hpeak⟩, hbehind⟩

/-! ### One line under all limits -/

namespace Statement

/-- From the peak of the line on, the limit makes no difference. -/
theorem outcome_of_peak_le (hlex : Token.Lexes line ts)
    (h : Lexeme.peak 0 (ts.map Token.lexeme) ≤ limit)
    (h' : Lexeme.peak 0 (ts.map Token.lexeme) ≤ limit') :
    outcome limit line = outcome limit' line := by
  rw [outcome_of_lexes hlex h, outcome_of_lexes hlex h']

/-- Below the peak of the line, the first parenthesis that passes the limit is the failure. -/
theorem outcome_of_lt_peak (hlex : Token.Lexes line ts)
    (h : limit < Lexeme.peak 0 (ts.map Token.lexeme)) :
    ∃ before paren after, ts = before ++ paren :: after ∧ paren.lexeme = .openParen ∧
      Lexeme.peak 0 (before.map Token.lexeme) ≤ limit ∧
      (before.map Token.lexeme).foldl Lexeme.depthAfter 0 = limit ∧
      outcome limit line = .error (tooDeep line limit paren) := by
  cases hdeeper : Token.firstDeeper? limit 0 ts with
  | none =>
    have := (Token.firstDeeper?_eq_none_iff (Nat.zero_le limit) ts).mp hdeeper
    omega
  | some paren =>
    obtain ⟨before, after, rfl, hopen, hpeak, hbehind⟩ :=
      Token.exists_of_firstDeeper? (Nat.zero_le limit) hdeeper
    refine ⟨before, paren, after, rfl, hopen, hpeak, hbehind, ?_⟩
    rw [outcome, Token.ofLine_eq_ok_iff.mpr hlex]
    simp only [hdeeper]

/-- A line with a stray character fails at that character, under every limit. -/
theorem outcome_of_not_lexes (h : ∀ ts, ¬Token.Lexes line ts) :
    ∃ lexeme span, ∀ limit, outcome limit line = .error (.invalidToken lexeme span) := by
  cases hscan : Token.ofLine line with
  | ok ts => exact absurd (Token.ofLine_eq_ok_iff.mp hscan) (h ts)
  | error stray =>
    refine ⟨String.singleton stray.char,
      .cover line stray.start (stray.start + stray.char.utf8Size), fun limit => ?_⟩
    rw [outcome, hscan]
    rfl

/-- A higher limit keeps the tree of a line. -/
theorem outcome_mono (hle : limit ≤ limit') (h : outcome limit line = .ok t) :
    outcome limit' line = .ok t := by
  obtain ⟨ts, hlex, hnest, hderives⟩ := outcome_eq_ok_iff.mp h
  exact outcome_eq_ok_iff.mpr ⟨ts, hlex, Nat.le_trans hnest hle, hderives⟩

end Statement

/-! ### Engines -/

namespace Standard.Engine

/-- **The limit is a threshold.**  An engine over a line of tokens gives the same under all limits from
    the peak of the line on.  Under a limit below, it fails at the first parenthesis behind which the
    count passes the limit: a syntax error over this parenthesis and nothing else, whatever else is wrong
    with the line.  A line that is not made of tokens fails in the same way under all limits.  Hence a
    higher limit never takes the tree of a line away or changes it. -/
theorem limit_is_threshold (line : String) :
    (∀ ts, Token.Lexes line ts →
      (∀ limit limit', Lexeme.peak 0 (ts.map Token.lexeme) ≤ limit →
        Lexeme.peak 0 (ts.map Token.lexeme) ≤ limit' →
        (run ⟨line, limit, .fresh⟩).1 = (run ⟨line, limit', .fresh⟩).1) ∧
      ∀ limit < Lexeme.peak 0 (ts.map Token.lexeme), ∃ before paren after pre behind,
        ts = before ++ paren :: after ∧ paren.lexeme = .openParen ∧
          Lexeme.peak 0 (before.map Token.lexeme) ≤ limit ∧
          (before.map Token.lexeme).foldl Lexeme.depthAfter 0 = limit ∧
          line.toList = pre ++ '(' :: behind ∧ byteLength pre = paren.start ∧
          (run ⟨line, limit, .fresh⟩).1 = .error (.syntaxError
            ("parentheses nest deeper than " ++ toString limit ++ " levels")
            (.cover line paren.start (paren.start + 1)))) ∧
      ((∀ ts, ¬Token.Lexes line ts) → ∃ lexeme span, ∀ limit,
        (run ⟨line, limit, .fresh⟩).1 = .error (.invalidToken lexeme span)) ∧
      ∀ limit limit' t, limit ≤ limit' → (run ⟨line, limit, .fresh⟩).1 = .ok t →
        (run ⟨line, limit', .fresh⟩).1 = .ok t := by
  refine ⟨fun ts hlex => ⟨fun limit limit' => Statement.outcome_of_peak_le hlex, ?_⟩,
    Statement.outcome_of_not_lexes, fun limit limit' t => Statement.outcome_mono⟩
  intro limit hlt
  obtain ⟨before, paren, after, rfl, hopen, hpeak, hbehind, houtcome⟩ :=
    Statement.outcome_of_lt_peak hlex hlt
  -- the parenthesis stands in the line where its token tells
  obtain ⟨pre, behind, hline, hstart⟩ := hlex.exists_of_mem (t := paren) (by simp)
  rw [hopen] at hline
  rw [Nat.zero_add] at hstart
  exact ⟨before, paren, after, pre, behind, rfl, hopen, hpeak, hbehind, hline, hstart.symm, houtcome⟩

end Standard.Engine

end ExprForest

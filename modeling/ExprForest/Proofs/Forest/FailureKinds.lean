import ExprForest.Proofs.Forest.Bytes
import ExprForest.Proofs.Statement.Descent

namespace ExprForest

/-!
# The kinds of failure

A parse with the standard grammar fails with a syntax error or an invalid token, and then at a place.
Whatever else an engine or the passes of one could fail with does not happen.

* `EngineError.Foreseen`, `ParseError.Placed`, `Outcome.Foreseen` — such failures, and outcomes that are
  values or such failures;
* `Text.slice?_of_stray` — a stray character stands where the lexical pass stopped;
* `Statement.passes_agree` — the parts of a line give the tree that the reader gives, or both find none;
* `Parser.fails_foreseen` — hence engines, statements, buffers and bytes only fail so.
-/

open Text (byteLength)

variable {limit : Nat} {line : String} {ts : List Token} {log : Log}

/-! ### Failures -/

/-- The two failures of an engine that come from its line. -/
inductive EngineError.Foreseen : EngineError → Prop where
  | invalidToken {lexeme : String} {span : Span} :
      Foreseen (.invalidToken lexeme span)
  | syntaxError {message : String} {span : Span} :
      Foreseen (.syntaxError message span)

/-- An error of one of two kinds that has a place. -/
structure ParseError.Placed (e : ParseError) : Prop where
  kind : e.kind = .syntaxError ∨ e.kind = .invalidToken
  place : ∃ span source, e.place? = some (span, source)

/-- A value, or an error that has a place. -/
inductive Outcome.Foreseen {α : Type} : Outcome α → Prop where
  | success {value : α} :
      Foreseen (.success value)
  | failure {e : ParseError} :
      e.Placed → Foreseen (.failure e)

theorem EngineError.StandsAt.foreseen {e : EngineError} {before inside : List Char}
    (h : e.StandsAt line before inside) : e.Foreseen := by
  cases h with
  | invalidToken _ => exact .invalidToken
  | syntaxError _ => exact .syntaxError

theorem EngineError.Foreseen.placed {e : EngineError} (h : e.Foreseen) (line : String) :
    (e.asFailure line).Placed := by
  cases h with
  | invalidToken => exact ⟨.inr rfl, _, _, rfl⟩
  | syntaxError => exact ⟨.inl rfl, _, _, rfl⟩

theorem ParseError.Placed.inBuffer {e : ParseError} (h : e.Placed) (number offset : Nat)
    (buffer : String) : (e.inBuffer number offset buffer).Placed := by
  obtain ⟨hkind, span, source, hplace⟩ := h
  cases e with
  | syntaxFailure message span source label => exact ⟨.inl rfl, _, _, rfl⟩
  | tokenFailure lexeme span source label => exact ⟨.inr rfl, _, _, rfl⟩
  | _ => cases hplace

/-! ### Passes over a line -/

/-- Where the lexical pass stops, the rest of the line begins with the stray character. -/
theorem Text.slice?_of_stray {stray : Stray} (h : Token.ofLine line = .error stray) :
    ∃ behind, slice? line stray.start line.utf8ByteSize = some (stray.char :: behind) := by
  obtain ⟨before, behind, hline, hstart⟩ := Token.exists_of_scan_eq_error h
  refine ⟨behind, ?_⟩
  rw [Nat.zero_add] at hstart
  have hparts : line.toList = before ++ (stray.char :: behind ++ []) := by
    rw [hline, List.append_nil]
  have hsize : line.utf8ByteSize = byteLength before + byteLength (stray.char :: behind) := by
    rw [← byteLength_append, ← hline, byteLength_toList]
  rw [hstart, hsize]
  exact slice?_byteLength hparts

namespace Statement

/-- **Descent and reader.**  The rules match a line of tokens as a whole, and its parts give the tree that
    the reader gives; or they fail, and the reader stops with a syntax error. -/
theorem passes_agree (hlex : Token.Lexes line ts)
    (hnest : Lexeme.peak 0 (ts.map Token.lexeme) ≤ limit) :
    (∃ parts t, Matcher.statement limit (ts.map Token.lexeme) = .matched parts [] ∧
      treeOf parts = .ok t ∧ read ts = .ok t) ∨
      Matcher.statement limit (ts.map Token.lexeme) = .failed ∧
        ∃ r message span, read ts = .error r ∧ r.failure line = .syntaxError message span := by
  rcases Matcher.statement_cases (fits_of_lexes hlex hnest) with
    ⟨parts, t, hmatched, htree, hderives⟩ | ⟨hfailed, hnone⟩
  · exact .inl ⟨parts, t, hmatched, htree, read_eq_ok_iff.mpr hderives⟩
  · right
    cases hread : read ts with
    | ok t => exact absurd (read_eq_ok_iff.mp hread) (hnone t)
    | error r =>
      exact ⟨hfailed, r, _, _, rfl, Rejection.failure_eq (stop_ne_notANumber hlex hread)⟩

end Statement

/-! ### Parsers -/

namespace Parser

theorem foreseen_statement (p : Parser .standard) (line : String) (log : Log) :
    (p.statement line log).1.Foreseen := by
  cases hstatement : (p.statement line log).1 with
  | success t => exact .success
  | failure e =>
    obtain ⟨e', before, inside, hstands, rfl⟩ := exists_standsAt_of_failure hstatement
    exact .failure (hstands.foreseen.placed line)
  | aborted =>
    rw [statement_standard] at hstatement
    split at hstatement <;> cases hstatement

theorem foreseen_forest (p : Parser .standard) (buffer : String) (log : Log) :
    (p.forest buffer log).1.Foreseen := by
  have hforest : p.forest buffer log = p.forestOfLines buffer .empty log (Line.split buffer) := rfl
  rw [hforest]
  rcases p.forestOfLines_cases buffer .empty log (Line.split buffer) with
    ⟨f, hsuccess⟩ | ⟨line, -, log', ⟨e, hstatement, hfailure⟩ | haborted⟩
  · rw [hsuccess]
    exact .success
  · have hline := p.foreseen_statement line.text log'
    rw [hstatement] at hline
    rw [hfailure]
    cases hline with
    | failure hplaced => exact .failure (hplaced.inBuffer line.number line.offset buffer)
  · have hline := p.foreseen_statement line.text log'
    rw [haborted] at hline
    cases hline

theorem foreseen_bytes (p : Parser .standard) (bytes : List UInt8) (log : Log) :
    (p.forestOfBytes (some bytes) log).1.Foreseen := by
  rw [forestOfBytes]
  cases Text.Utf8.read bytes with
  | ok text => exact p.foreseen_forest text log
  | error m => exact .failure ⟨.inr rfl, _, _, rfl⟩

/-- **Two ways to fail.**  The first run of an engine gives a tree, an invalid token or a syntax error.  For
    none of its passes over the line comes up what it checks for: where the lexical pass stops there is a
    character, every number has a value, and the parts that the rules match give the tree of the line, so
    that none of them is missing or unexpected.  Hence statements and buffers give a value, or a failure of
    one of two kinds at a place, and bytes do too, unless there are none. -/
theorem fails_foreseen :
    (∀ limit line, (∃ t, (Standard.Engine.run ⟨line, limit, .fresh⟩).1 = .ok t) ∨
      ∃ e, (Standard.Engine.run ⟨line, limit, .fresh⟩).1 = .error e ∧ e.Foreseen) ∧
    (∀ line stray, Token.ofLine line = .error stray → ∃ behind,
      Text.slice? line stray.start line.utf8ByteSize = some (stray.char :: behind)) ∧
    (∀ text, IsNumeral text → ∃ value, Decimal.read? text = some value) ∧
    (∀ line ts limit, Token.Lexes line ts → Lexeme.peak 0 (ts.map Token.lexeme) ≤ limit →
      (∃ parts t, Statement.Matcher.statement limit (ts.map Token.lexeme) = .matched parts [] ∧
        Statement.treeOf parts = .ok t ∧ Statement.read ts = .ok t) ∨
        Statement.Matcher.statement limit (ts.map Token.lexeme) = .failed ∧
          ∃ r message span, Statement.read ts = .error r ∧
            r.failure line = .syntaxError message span) ∧
    ∀ (p : Parser .standard) (log : Log),
      (∀ line, (p.statement line log).1.Foreseen) ∧
        (∀ buffer, (p.forest buffer log).1.Foreseen) ∧
        (∀ bytes, (p.forestOfBytes (some bytes) log).1.Foreseen) ∧
        ∃ message, (p.forestOfBytes none log).1 = .failure (.invalidArgument message) := by
  refine ⟨fun limit line => ?_, fun line stray => Text.slice?_of_stray,
    fun text => Decimal.exists_read?_eq_some, fun line ts limit => Statement.passes_agree,
    fun p log => ⟨(p.foreseen_statement · log), (p.foreseen_forest · log),
      (p.foreseen_bytes · log), _, rfl⟩⟩
  show (∃ t, Statement.outcome limit line = .ok t) ∨
    ∃ e, Statement.outcome limit line = .error e ∧ e.Foreseen
  cases houtcome : Statement.outcome limit line with
  | ok t => exact .inl ⟨t, rfl⟩
  | error e =>
    obtain ⟨before, inside, hstands⟩ := Statement.exists_standsAt houtcome
    exact .inr ⟨e, rfl, hstands.foreseen⟩

end Parser

end ExprForest

import ExprForest.Proofs.Forest.Concatenation
import ExprForest.Proofs.Lexical.Pass

namespace ExprForest

/-!
# Blank lines that are not passed over

A line is blank if it holds nothing but white space, of which there are many characters.  The lexical pass
passes over three of them.

* `Token.Munches.parts_eq_nil` — the pass finds no token in a blank line;
* `EngineError.OfBlank` — the two ways in which a blank line fails, with `Statement.ofBlank_outcome`;
* `Parser.blank_line_fails` — a buffer fails at its first blank line if no line before it does and blank
  lines are not passed over: with a syntax error if the line holds spaces, tabs and carriage returns only,
  and otherwise with an invalid token.
-/

open Text (byteLength)

/-! ### One line -/

/-- The pass finds no token in a text of white space. -/
theorem Token.Munches.parts_eq_nil {start : Nat} {cs gap rest : List Char}
    {parts : List (Token × List Char)} (h : Token.Munches start cs gap parts rest)
    (hblank : ∀ c ∈ cs, Text.isWhiteSpace c = true) : parts = [] := by
  cases parts with
  | nil => rfl
  | cons part parts =>
    obtain ⟨t, behind⟩ := part
    -- the first character of a first token would be white space
    have hl := h.longest [] t behind parts rfl
    obtain ⟨c, ds, hc⟩ := List.exists_cons_of_ne_nil hl.1.chars_ne_nil
    have hmem : c ∈ t.lexeme.chars := by
      rw [hc]
      exact List.mem_cons_self
    have hwhite := hblank c (by
      rw [h.text, Token.laid]
      simp [hmem])
    rw [hl.1.not_isWhiteSpace hmem] at hwhite
    cases hwhite

/-- How a blank line fails: at its end if the lexical pass passes over all of it, and otherwise at the first
    character that the pass does not pass over. -/
inductive EngineError.OfBlank (line : String) : EngineError → Prop where
  | atEnd :
      (∀ c ∈ line.toList, isSpace c = true) →
      OfBlank line (.syntaxError "expected expression, found end of line"
        (.point line line.utf8ByteSize))
  | atStray {before behind : List Char} {c : Char} :
      line.toList = before ++ c :: behind → (∀ d ∈ before, isSpace d = true) → isSpace c = false →
      OfBlank line (.invalidToken (String.singleton c)
        (.cover line (byteLength before) (byteLength before + c.utf8Size)))

/-- A blank line has no tree. -/
theorem Statement.ofBlank_outcome {line : String} (hblank : Text.isBlank line = true) (limit : Nat) :
    ∃ e, e.OfBlank line ∧ outcome limit line = .error e := by
  have hwhite : ∀ c ∈ line.toList, Text.isWhiteSpace c = true := List.all_eq_true.mp hblank
  obtain ⟨gap, parts, rest, h, hrest⟩ := Token.exists_munches 0 line.toList
  obtain rfl := h.parts_eq_nil hwhite
  rcases hrest with rfl | ⟨c, behind, rfl, hstuck⟩
  · -- the grammar gets no token
    have hspaces : ∀ c ∈ line.toList, isSpace c = true := by
      rw [h.text, Token.laid, List.append_nil]
      exact h.spaces
    refine ⟨_, .atEnd hspaces, ?_⟩
    have hlex : Token.Lexes line [] := Token.ofLine_eq_ok_iff.mp h.ofLine_eq_ok
    rw [outcome_of_lexes hlex (Nat.zero_le limit)]
    rfl
  · refine ⟨_, .atStray h.text h.spaces hstuck.1, ?_⟩
    rw [outcome, h.ofLine_eq_error hstuck]
    rfl

/-! ### Buffers -/

namespace Parser

variable {p : Parser .standard} {buffer : String} {line : Line} {before after : List Line}
  {trees : List Tree}

/-- A blank line fails by itself. -/
theorem gives_of_isBlank (p : Parser .standard) (hblank : Text.isBlank line.text = true) :
    ∃ e : EngineError, e.OfBlank line.text ∧ p.Gives line (.failure (e.asFailure line.text)) := by
  obtain ⟨e, he, houtcome⟩ := Statement.ofBlank_outcome hblank p.settings.maxNesting
  refine ⟨e, he, fun log => ?_⟩
  rw [statement_standard, houtcome]

/-- Lines that have trees are not blank. -/
theorem Passes.not_isBlank {lines : List Line} (h : p.Passes lines trees) :
    ∀ l ∈ lines, Text.isBlank l.text = false := by
  induction h with
  | nil => nofun
  | @cons l t lines trees hgives _ ih =>
    refine List.forall_mem_cons.mpr ⟨?_, ih⟩
    rw [Bool.eq_false_iff]
    intro hblank
    obtain ⟨e, -, hfails⟩ := gives_of_isBlank p hblank
    cases (hgives .empty).symm.trans (hfails .empty)

/-- If blank lines are not passed over, all lines are statements. -/
theorem statementLines_eq_split (hkeep : p.settings.skipBlankLines = false) (buffer : String) :
    p.statementLines buffer = Line.split buffer := by
  rw [statementLines, List.filter_eq_self]
  intro l _
  simp [skips, hkeep]

/-- **Blank lines fail.**  If blank lines are not passed over and all lines before a blank one have trees,
    that line is the first blank one and the buffer fails there.  The failure is a syntax error exactly if
    the line holds spaces, tabs and carriage returns only; any other white space is an invalid token. -/
theorem blank_line_fails (p : Parser .standard) (hkeep : p.settings.skipBlankLines = false)
    (hlines : Line.split buffer = before ++ line :: after) (hbefore : p.Passes before trees)
    (hblank : Text.isBlank line.text = true) (log : Log) :
    (∀ l ∈ before, Text.isBlank l.text = false) ∧
      ∃ (blame : EngineError) (e : ParseError) (span : Span), blame.OfBlank line.text ∧
        e = (blame.asFailure line.text).inBuffer line.number line.offset buffer ∧
        (p.forest buffer log).1 = .failure e ∧
        e.span? = some span ∧ span.firstLine = line.number ∧ span.lastLine = line.number ∧
        (e.kind = .syntaxError ↔ ∀ c ∈ line.text.toList, isSpace c = true) := by
  refine ⟨hbefore.not_isBlank, ?_⟩
  obtain ⟨blame, hblame, hfails⟩ := gives_of_isBlank p hblank
  have hat : p.FailsAt (p.statementLines buffer) line (blame.asFailure line.text) :=
    ⟨before, after, trees, by rw [statementLines_eq_split hkeep, hlines], hbefore, hfails⟩
  have hnumber : 0 < line.number := by
    have hmem : line ∈ p.statementLines buffer := by
      rw [statementLines_eq_split hkeep, hlines]
      simp
    exact number_pos_of_mem_statementLines hmem
  -- a span of one line in the buffer
  have hrow : 1 + (line.number - 1) = line.number := by omega
  cases hblame with
  | atEnd hspaces =>
    exact ⟨_, _, _, .atEnd hspaces, rfl, hat.forest_eq log, rfl, hrow, hrow,
      iff_of_true rfl hspaces⟩
  | @atStray pre behind c hline hpre hc =>
    have hlt : ¬byteLength pre + c.utf8Size ≤ byteLength pre := by
      have := c.utf8Size_pos
      omega
    refine ⟨_, _, _, .atStray hline hpre hc, rfl, hat.forest_eq log, rfl, ?_, ?_, ?_⟩
    · rw [Span.cover, if_neg hlt]
      exact hrow
    · rw [Span.cover, if_neg hlt]
      exact hrow
    · refine iff_of_false (fun hkind => by cases hkind) fun hspaces => ?_
      rw [hspaces c (by rw [hline]; simp)] at hc
      cases hc

/-- The second line holds a space and a tab. -/
theorem blank_line_fails_of_tab :
    Text.isBlank " \t" = true ∧
      ∃ (blame : EngineError) (e : ParseError) (span : Span), blame.OfBlank " \t" ∧
        e = (blame.asFailure " \t").inBuffer 2 2 "x\n \t\ny" ∧
        ((⟨⟨false, 32⟩, by decide⟩ : Parser .standard).forest "x\n \t\ny" .empty).1 = .failure e ∧
        e.span? = some span ∧ span.firstLine = 2 ∧ span.lastLine = 2 ∧
        (e.kind = .syntaxError ↔ ∀ c ∈ [' ', '\t'], isSpace c = true) := by
  have hlines : Line.split "x\n \t\ny" = [⟨1, 0, "x"⟩] ++ ⟨2, 2, " \t"⟩ :: [⟨3, 5, "y"⟩] := by cbv
  have hblank : Text.isBlank " \t" = true := by decide
  have hfirst : (⟨⟨false, 32⟩, by decide⟩ : Parser .standard).Gives ⟨1, 0, "x"⟩
      (.success (.identifier "x")) := by
    have hstatement : ((⟨⟨false, 32⟩, by decide⟩ : Parser .standard).statement "x" .empty).1 =
        .success (.identifier "x") := by
      cbv
    rw [← hstatement]
    exact gives_statement _ ⟨1, 0, "x"⟩ .empty
  exact ⟨hblank, (blank_line_fails ⟨⟨false, 32⟩, by decide⟩ rfl hlines (.cons hfirst .nil) hblank
    .empty).2⟩

/-- A line with a vertical tab is blank, and still no syntax error. -/
theorem blank_line_is_invalid_token :
    Line.split "\x0b" = [⟨1, 0, "\x0b"⟩] ∧ Text.isBlank "\x0b" = true ∧
      ((⟨⟨false, 32⟩, by decide⟩ : Parser .standard).forest "\x0b" .empty).1 =
        .failure (.invalidToken "\x0b" ⟨1, 1, 1, 1, 0, 1⟩ ⟨true, "\x0b"⟩) := by
  refine ⟨?_, ?_, ?_⟩ <;> cbv

end Parser

end ExprForest

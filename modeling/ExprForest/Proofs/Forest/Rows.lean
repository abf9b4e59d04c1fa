import ExprForest.Proofs.Forest.Concatenation

namespace ExprForest

/-!
# Rows of a buffer

A buffer is its rows put together, each with the line feed that ends it.  Its lines are these rows without
their ends, so what is done to a buffer row by row is done to its lines.

* `Text.IsRows`, `Text.rows` — lists of rows, and the rows of a text;
* `Line.ofRows` — the lines of some rows, with `Line.split_eq_ofRows`: those are the lines of the buffer;
* `Parser.Passes.along`, `Parser.FailsAt.along` — lines with the same texts fare alike under parsers with the
  same nesting limit, wherever they stand;
* `Parser.forest_along` — hence so do two buffers whose statement lines have the same texts.
-/

open Text (byteLength)

/-! ### Rows -/

namespace Text

variable {rs front back : List (List Char)}

/-- Rows one after the other.  Each ends with its only line feed, which the last one may lack. -/
inductive IsRows : List (List Char) → Prop where
  | nil :
      IsRows []
  | last {body : List Char} :
      body ≠ [] → '\n' ∉ body →
      IsRows [body]
  | row {body : List Char} {rs : List (List Char)} :
      '\n' ∉ body → IsRows rs →
      IsRows ((body ++ ['\n']) :: rs)

/-- The rows of a text, with their line feeds. -/
def rows : List Char → List (List Char)
  | [] => []
  | c :: cs =>
    if c = '\n' then [c] :: rows cs
    else
      match rows cs with
      | [] => [[c]]
      | row :: rs => (c :: row) :: rs

/-- Nothing of a text is lost between its rows. -/
theorem flatten_rows (cs : List Char) : (rows cs).flatten = cs := by
  induction cs with
  | nil => rfl
  | cons c cs ih =>
    rw [rows]
    split
    · rw [List.flatten_cons, ih]
      rfl
    · cases hrows : rows cs with
      | nil =>
        rw [hrows] at ih
        rw [← ih]
        rfl
      | cons row rs =>
        rw [hrows] at ih
        rw [← ih]
        rfl

/-- A character goes in front of the first row, unless it is a line feed. -/
theorem isRows_rows (cs : List Char) : IsRows (rows cs) := by
  induction cs with
  | nil => exact .nil
  | cons c cs ih =>
    rw [rows]
    split
    · rename_i hc
      subst hc
      exact .row List.not_mem_nil ih
    · rename_i hc
      have hlonger : ∀ {body : List Char}, '\n' ∉ body → '\n' ∉ c :: body := by
        intro body hbody
        simp [hbody, Ne.symm hc]
      generalize rows cs = rs at ih
      cases ih with
      | nil => exact .last (List.cons_ne_nil c []) (hlonger List.not_mem_nil)
      | last _ hbody => exact .last (List.cons_ne_nil c _) (hlonger hbody)
      | row hbody hrest => exact .row (hlonger hbody) hrest

/-- The last rows of a text are rows again. -/
theorem IsRows.of_append (h : IsRows (front ++ back)) : IsRows back := by
  induction front with
  | nil => exact h
  | cons row front ih =>
    rw [List.cons_append] at h
    generalize hrest : front ++ back = rs at h ih
    cases h with
    | last _ _ => exact ih .nil
    | row _ hrest => exact ih hrest

/-- Any of the rows of a text are rows again. -/
theorem IsRows.filter (h : IsRows rs) (keep : List Char → Bool) : IsRows (rs.filter keep) := by
  induction h with
  | nil => exact .nil
  | @last body hne hbody =>
    cases hkeep : keep body with
    | true =>
      rw [List.filter_cons_of_pos hkeep]
      exact .last hne hbody
    | false =>
      rw [List.filter_cons_of_neg (Bool.eq_false_iff.mp hkeep)]
      exact .nil
  | @row body rs hbody _ ih =>
    cases hkeep : keep (body ++ ['\n']) with
    | true =>
      rw [List.filter_cons_of_pos hkeep]
      exact .row hbody ih
    | false =>
      rw [List.filter_cons_of_neg (Bool.eq_false_iff.mp hkeep)]
      exact ih

end Text

/-! ### Lines -/

namespace Line

open Text (IsRows rows)

variable {rs : List (List Char)} {body : List Char} {number offset : Nat} {done : List Line}

/-- A row without its line feed, and without one carriage return before that. -/
def textOf (row : List Char) : List Char :=
  dropReturn (row.takeWhile (· ≠ '\n'))

/-- The lines of some rows, the first of which starts at byte `offset` of a buffer as line `number`. -/
def ofRows (number offset : Nat) : List (List Char) → List Line
  | [] => []
  | row :: rs =>
    ⟨number, offset, String.ofList (textOf row)⟩ :: ofRows (number + 1) (offset + byteLength row) rs

/-- A row without a line feed loses a carriage return at most. -/
theorem textOf_body (h : '\n' ∉ body) : textOf body = dropReturn body := by
  have htake := Text.takeWhile_lineFeed_append h []
  rw [List.append_nil, List.takeWhile_nil, List.append_nil] at htake
  rw [textOf, htake]

/-- So does a row that ends with a line feed, besides this one. -/
theorem textOf_row (h : '\n' ∉ body) : textOf (body ++ ['\n']) = dropReturn body := by
  rw [textOf, Text.takeWhile_lineFeed_append h, List.takeWhile_cons_of_neg (by simp), List.append_nil]

/-- Rows put together are split into the lines of these rows. -/
theorem splitFrom_flatten (h : IsRows rs) :
    splitFrom done number offset rs.flatten = done.reverse ++ ofRows number offset rs := by
  induction h generalizing done number offset with
  | nil => simp [splitFrom, ofRows]
  | @last body hne hbody =>
    rw [List.flatten_singleton, splitFrom_last hne hbody, ofRows, ofRows, textOf_body hbody,
      List.reverse_cons]
  | @row body rs hbody _ ih =>
    have hbytes : offset + byteLength (body ++ ['\n']) = offset + byteLength body + 1 := by
      rw [Text.byteLength_append, ← Nat.add_assoc]
      rfl
    rw [List.flatten_cons, List.append_assoc, List.singleton_append, splitFrom_row hbody, ih, ofRows,
      textOf_row hbody, hbytes, List.reverse_cons, List.append_assoc]
    rfl

theorem split_flatten (h : IsRows rs) : split (String.ofList rs.flatten) = ofRows 1 0 rs := by
  rw [split, String.toList_ofList, splitFrom_flatten h]
  rfl

/-- **Lines are rows.**  The lines of a buffer are its rows without their ends. -/
theorem split_eq_ofRows (buffer : String) : split buffer = ofRows 1 0 (rows buffer.toList) := by
  rw [← split_flatten (Text.isRows_rows buffer.toList), Text.flatten_rows, String.ofList_toList]

end Line

/-! ### Lines with the same texts -/

namespace Parser

variable {p q : Parser .standard} {line line' : Line} {lines lines' : List Line} {trees : List Tree}
variable {buffer buffer' : String} {e : ParseError} {o : Outcome Tree} {R : Line → Line → Prop}

/-- Only the nesting limit and the text of a line matter for what it gives. -/
theorem Gives.along (hlimit : q.settings.maxNesting = p.settings.maxNesting)
    (htext : line'.text = line.text) (h : p.Gives line o) : q.Gives line' o := by
  intro log
  have hp := h log
  rw [statement_standard] at hp ⊢
  rw [hlimit, htext, hp]

/-- Lines with the same texts have the same trees. -/
theorem Passes.along (hlimit : q.settings.maxNesting = p.settings.maxNesting)
    (htext : ∀ l l', R l l' → l'.text = l.text) (hlines : List.Forall₂ R lines lines')
    (h : p.Passes lines trees) : q.Passes lines' trees := by
  induction hlines generalizing trees with
  | nil =>
    cases h
    exact .nil
  | cons hR _ ih =>
    cases h with
    | cons hgives hrest => exact .cons (hgives.along hlimit (htext _ _ hR)) (ih hrest)

/-- Among lines with the same texts, the one in the same position is the first to fail. -/
theorem FailsAt.along (hlimit : q.settings.maxNesting = p.settings.maxNesting)
    (htext : ∀ l l', R l l' → l'.text = l.text) (hlines : List.Forall₂ R lines lines')
    (h : p.FailsAt lines line e) :
    ∃ (i : Nat) (line' : Line), lines[i]? = some line ∧ lines'[i]? = some line' ∧ R line line' ∧
      q.FailsAt lines' line' e := by
  obtain ⟨before, after, trees, rfl, hbefore, hfails⟩ := h
  -- on the lines before; the position grows by each
  induction before generalizing lines' trees with
  | nil =>
    cases hlines with
    | @cons _ l' _ ls' hR hrest =>
      exact ⟨0, l', rfl, rfl, hR, [], ls', [], rfl, .nil, hfails.along hlimit (htext _ _ hR)⟩
  | cons l before ih =>
    cases hlines with
    | @cons _ l' _ ls' hR hrest =>
      cases hbefore with
      | cons hgives hbefore =>
        obtain ⟨i, line', hi, hi', hline, before', after', trees', rfl, hbefore', hfails'⟩ :=
          ih _ hrest hbefore
        exact ⟨i + 1, line', hi, hi', hline, l' :: before', after', _ :: trees', rfl,
          .cons (hgives.along hlimit (htext _ _ hR)) hbefore', hfails'⟩

/-- The error of a line stands in that line of the buffer. -/
theorem Gives.exists_span (h : p.Gives line (.failure e)) (hnumber : 0 < line.number) :
    ∃ span, (e.inBuffer line.number line.offset buffer).span? = some span ∧
      span.firstLine = line.number ∧ span.lastLine = line.number := by
  obtain ⟨e', before, inside, hstands, rfl⟩ := exists_standsAt_of_failure (h .empty)
  -- a span in a line of its own lies in the first row
  have hshift : ∀ start stop,
      ((Span.cover line.text start stop).shift line.number line.offset).firstLine = line.number ∧
        ((Span.cover line.text start stop).shift line.number line.offset).lastLine = line.number := by
    intro start stop
    have hrow : 1 + (line.number - 1) = line.number := by omega
    rw [Span.cover]
    split <;> exact ⟨hrow, hrow⟩
  cases hstands with
  | invalidToken _ => exact ⟨_, rfl, hshift _ _⟩
  | syntaxError _ => exact ⟨_, rfl, hshift _ _⟩

/-- **Buffers with the same statements.**  If the statement lines of two buffers have the same texts, both
    give the same trees, or both fail with the same error, each in its own coordinates, at the statement in
    the same position. -/
theorem forest_along (hlimit : q.settings.maxNesting = p.settings.maxNesting)
    (htext : ∀ l l', R l l' → l'.text = l.text)
    (hlines : List.Forall₂ R (p.statementLines buffer) (q.statementLines buffer')) (log log' : Log) :
    (∃ f, (p.forest buffer log).1 = .success f ∧ (q.forest buffer' log').1 = .success f) ∨
      ∃ (i : Nat) (line line' : Line) (e : ParseError), (p.statementLines buffer)[i]? = some line ∧
        (q.statementLines buffer')[i]? = some line' ∧ R line line' ∧
        p.Gives line (.failure e) ∧ e.Placed ∧
        (p.forest buffer log).1 = .failure (e.inBuffer line.number line.offset buffer) ∧
        (q.forest buffer' log').1 = .failure (e.inBuffer line'.number line'.offset buffer') := by
  rcases p.passes_or_failsAt buffer with ⟨trees, hpasses⟩ | ⟨line, e, hfails, hplaced, -⟩
  · exact .inl ⟨⟨trees⟩, hpasses.forest_eq log, (hpasses.along hlimit htext hlines).forest_eq log'⟩
  · right
    obtain ⟨i, line', hi, hi', hR, hfails'⟩ := hfails.along hlimit htext hlines
    have hgives : p.Gives line (.failure e) := by
      obtain ⟨-, -, -, -, -, hgives⟩ := hfails
      exact hgives
    exact ⟨i, line, line', e, hi, hi', hR, hgives, hplaced, hfails.forest_eq log,
      hfails'.forest_eq log'⟩

end Parser

end ExprForest

import ExprForest.Proofs.Forest.FailureKinds

namespace ExprForest

/-!
# Buffers put together

A buffer in two parts, the first of which is empty or ends in a line feed, parses as its parts do one after
the other.

* `Line.Closed` — such first parts, row by row;
* `Line.split_append` — the lines of the whole are those of the first part and, further on in the
  buffer, those of the second;
* `Parser.Passes`, `Parser.FailsAt` — lines that all give trees, and lines of which one is the first to fail:
  `Parser.passes_or_failsAt` says a buffer's are one or the other;
* `ParseError.Further` — an error with its place further on;
* `Parser.forest_append` — what becomes of the whole, told by what becomes of the parts.
-/

open Text (byteLength)

/-! ### Lines -/

namespace Line

variable {cs ds body behind : List Char} {done : List Line} {number offset rows bytes : Nat}

/-- A line further on in its buffer. -/
def further (rows bytes : Nat) (line : Line) : Line :=
  ⟨line.number + rows, line.offset + bytes, line.text⟩

/-- Texts in which every row ends with a line feed. -/
inductive Closed : List Char → Prop where
  | nil :
      Closed []
  | row {body behind : List Char} :
      '\n' ∉ body → Closed behind →
      Closed (body ++ '\n' :: behind)

/-- What ends in a line feed, behind a row that is not at its end. -/
theorem closed_append_lineFeed (hbody : '\n' ∉ body) (front : List Char) :
    Closed (body ++ (front ++ ['\n'])) := by
  induction front generalizing body with
  | nil => exact .row hbody .nil
  | cons c front ih =>
    -- a line feed before the last one ends a row and starts the next
    by_cases hc : c = '\n'
    · subst hc
      exact .row hbody (ih List.not_mem_nil)
    · have hlonger : '\n' ∉ body ++ [c] := by
        simpa [hbody] using Ne.symm hc
      have hclosed := ih hlonger
      rwa [List.append_assoc] at hclosed

/-- A row with its line feed is split off. -/
theorem splitFrom_row (hbody : '\n' ∉ body) :
    splitFrom done number offset (body ++ '\n' :: behind) =
      splitFrom (⟨number, offset, String.ofList (dropReturn body)⟩ :: done) (number + 1)
        (offset + byteLength body + 1) behind := by
  have htake : (body ++ '\n' :: behind).takeWhile (· ≠ '\n') = body := by
    rw [Text.takeWhile_lineFeed_append hbody, List.takeWhile_cons_of_neg (by simp), List.append_nil]
  have hdrop : (body ++ '\n' :: behind).drop body.length = '\n' :: behind := List.drop_left
  obtain ⟨c, cs, hcs⟩ : ∃ c cs, body ++ '\n' :: behind = c :: cs :=
    List.exists_cons_of_ne_nil (by simp)
  rw [hcs] at htake hdrop ⊢
  rw [splitFrom]
  simp only [htake]
  split
  · rename_i hnil
    rw [htake, hdrop] at hnil
    cases hnil
  · rename_i hcons
    rw [htake, hdrop] at hcons
    obtain ⟨-, rfl⟩ := List.cons.inj hcons
    rfl

/-- A last row without a line feed. -/
theorem splitFrom_last (hne : body ≠ []) (hbody : '\n' ∉ body) :
    splitFrom done number offset body =
      (⟨number, offset, String.ofList (dropReturn body)⟩ :: done).reverse := by
  have htake := Text.takeWhile_lineFeed_append hbody []
  rw [List.append_nil, List.takeWhile_nil, List.append_nil] at htake
  obtain ⟨c, cs, rfl⟩ := List.exists_cons_of_ne_nil hne
  rw [splitFrom]
  simp only [htake]
  split
  · rfl
  · rename_i hcons
    rw [htake, List.drop_length] at hcons
    cases hcons

/-- The lines of a closed text come first, and the rest is split behind them. -/
theorem splitFrom_append (h : Closed cs) (ds : List Char) :
    splitFrom done number offset (cs ++ ds) =
      splitFrom (splitFrom done number offset cs).reverse (number + cs.count '\n')
        (offset + byteLength cs) ds := by
  induction h generalizing done number offset with
  | nil => simp [splitFrom]
  | @row body behind hbody _ ih =>
    have hrows : number + (body ++ '\n' :: behind).count '\n' = number + 1 + behind.count '\n' := by
      rw [List.count_append, List.count_eq_zero_of_not_mem hbody, List.count_cons_self]
      omega
    have hbytes : offset + byteLength (body ++ '\n' :: behind) =
        offset + byteLength body + 1 + byteLength behind := by
      rw [Text.byteLength_append, Text.byteLength_cons]
      have hfeed : '\n'.utf8Size = 1 := rfl
      omega
    rw [List.append_assoc, List.cons_append, splitFrom_row hbody, splitFrom_row hbody, hrows, hbytes]
    exact ih

/-- The same text further on in a buffer, behind lines that were split off before. -/
theorem splitFrom_further (before : List Line) (rest : List Char) :
    splitFrom (done.map (further rows bytes) ++ before) (number + rows) (offset + bytes) rest =
      before.reverse ++ (splitFrom done number offset rest).map (further rows bytes) := by
  -- on the rest, row by row, as both sides are split
  fun_induction splitFrom done number offset rest with
  | case1 done number offset => simp [splitFrom]
  | case2 done number offset c cs body line hnil =>
    have hall : body = c :: cs :=
      (List.takeWhile_prefix _).eq_of_length_le (List.drop_eq_nil_iff.mp hnil)
    have hbody : '\n' ∉ body := Text.not_mem_takeWhile (c :: cs)
    have hne : body ≠ [] := hall ▸ List.cons_ne_nil c cs
    rw [← hall, splitFrom_last hne hbody]
    simp [line, further]
  | case3 done number offset c cs body line feed behind hbehind hlt ih =>
    have hrest : c :: cs = body ++ '\n' :: behind := eq_append_of_drop hbehind
    have hbody : '\n' ∉ body := Text.not_mem_takeWhile (c :: cs)
    have hnumber : number + rows + 1 = number + 1 + rows := by omega
    have hoffset : offset + bytes + byteLength body + 1 = offset + byteLength body + 1 + bytes := by
      omega
    rw [hrest, splitFrom_row hbody, hnumber, hoffset]
    exact ih

/-- **Lines put together.**  Behind a part that ends in a line feed, the lines of the second part stand
    further on by the rows and the bytes of the first. -/
theorem split_append {a b : String} (h : Closed a.toList) :
    split (a ++ b) =
      split a ++ (split b).map (further (a.toList.count '\n') (byteLength a.toList)) := by
  have hfurther := @splitFrom_further [] 1 0 (a.toList.count '\n') (byteLength a.toList)
    (split a).reverse b.toList
  rw [List.reverse_reverse] at hfurther
  rw [split, String.toList_append, splitFrom_append h]
  exact hfurther

end Line

/-! ### Errors -/

/-- A span further on in a text: the same columns and the same length. -/
def Span.further (rows bytes : Nat) (s : Span) : Span :=
  ⟨s.firstLine + rows, s.firstColumn, s.lastLine + rows, s.lastColumn, s.offset + bytes, s.length⟩

namespace ParseError

variable {rows bytes number offset : Nat} {buffer buffer' : String} {e : ParseError}

/-- An error that has a place, and the same error with its place further on, in another buffer. -/
inductive Further (rows bytes : Nat) (buffer : String) : ParseError → ParseError → Prop where
  | syntaxError {message : String} {span : Span} {source : Source} :
      Further rows bytes buffer (.syntaxError message span source)
        (.syntaxError message (span.further rows bytes) ⟨true, buffer⟩)
  | invalidToken {lexeme : String} {span : Span} {source : Source} :
      Further rows bytes buffer (.invalidToken lexeme span source)
        (.invalidToken lexeme (span.further rows bytes) ⟨true, buffer⟩)

/-- The error of a line that stands further on in another buffer. -/
theorem Placed.further (he : e.Placed) (hnumber : 0 < number) :
    (e.inBuffer number offset buffer').Further rows bytes buffer
      (e.inBuffer (number + rows) (offset + bytes) buffer) := by
  have hspan : ∀ span : Span, span.shift (number + rows) (offset + bytes) =
      (span.shift number offset).further rows bytes := by
    intro span
    have hrow : number + rows - 1 = number - 1 + rows := by omega
    simp only [Span.shift, Span.further, hrow, Nat.add_assoc]
  obtain ⟨-, span, source, hplace⟩ := he
  cases e with
  | syntaxFailure message span source label =>
    show Further _ _ _ _ (.syntaxError message (span.shift (number + rows) (offset + bytes)) _)
    rw [hspan]
    exact .syntaxError
  | tokenFailure lexeme span source label =>
    show Further _ _ _ _ (.invalidToken lexeme (span.shift (number + rows) (offset + bytes)) _)
    rw [hspan]
    exact .invalidToken
  | _ => cases hplace

end ParseError

/-! ### Buffers -/

namespace Parser

variable {g : Grammar} {p : Parser g} {buffer : String} {line : Line} {lines lines' : List Line}
variable {trees trees' : List Tree} {e : ParseError} {rows bytes : Nat}

/-- Whether all lines have trees. -/
def Passes (p : Parser g) (lines : List Line) (trees : List Tree) : Prop :=
  List.Forall₂ (fun line t => p.Gives line (.success t)) lines trees

/-- Whether a line is the first of some lines that has no tree, and fails. -/
def FailsAt (p : Parser g) (lines : List Line) (line : Line) (e : ParseError) : Prop :=
  ∃ before after trees, lines = before ++ line :: after ∧ p.Passes before trees ∧
    p.Gives line (.failure e)

/-- Lines further on have the same trees. -/
theorem Passes.further (h : p.Passes lines trees) :
    p.Passes (lines.map (Line.further rows bytes)) trees :=
  List.forall₂_map_left_iff.mpr h

theorem Passes.append (h : p.Passes lines trees) (h' : p.Passes lines' trees') :
    p.Passes (lines ++ lines') (trees ++ trees') :=
  List.rel_append h h'

/-- Lines further on fail in the same way. -/
theorem FailsAt.further (h : p.FailsAt lines line e) :
    p.FailsAt (lines.map (Line.further rows bytes)) (line.further rows bytes) e := by
  obtain ⟨before, after, trees, rfl, hbefore, hfails⟩ := h
  refine ⟨before.map (Line.further rows bytes), after.map (Line.further rows bytes), trees, ?_,
    hbefore.further, hfails⟩
  rw [List.map_append, List.map_cons]

/-- What stands behind the first line that fails does not matter. -/
theorem FailsAt.append (h : p.FailsAt lines line e) (lines' : List Line) :
    p.FailsAt (lines ++ lines') line e := by
  obtain ⟨before, after, trees, rfl, hbefore, hfails⟩ := h
  exact ⟨before, after ++ lines', trees, by simp, hbefore, hfails⟩

/-- Lines that have trees before lines that fail. -/
theorem Passes.failsAt (h : p.Passes lines trees) (h' : p.FailsAt lines' line e) :
    p.FailsAt (lines ++ lines') line e := by
  obtain ⟨before, after, trees', rfl, hbefore, hfails⟩ := h'
  exact ⟨lines ++ before, after, trees ++ trees', by simp, h.append hbefore, hfails⟩

theorem skips_of_mem_statementLines (h : line ∈ p.statementLines buffer) : p.skips line = false := by
  simpa using (List.mem_filter.mp h).2

/-- A buffer parses as its statement lines do. -/
theorem forest_eq (log : Log) :
    p.forest buffer log = p.forestOfLines buffer .empty log (p.statementLines buffer) :=
  (forestOfLines_filter (Line.split buffer)).symm

theorem Passes.forest_eq (h : p.Passes (p.statementLines buffer) trees) (log : Log) :
    (p.forest buffer log).1 = .success ⟨trees⟩ := by
  obtain ⟨draft, log', hdraft, -, heq⟩ :=
    @forestOfLines_append _ _ buffer .empty log _ _ h (fun _ => skips_of_mem_statementLines) []
  -- all lines are passed, and what is drafted by then is committed
  rw [List.append_nil] at heq
  rw [Parser.forest_eq, heq]
  show Outcome.success draft.commit = _
  rw [← List.nil_append trees, ← Forest.Draft.commit_empty, ← hdraft]

theorem FailsAt.forest_eq (h : p.FailsAt (p.statementLines buffer) line e) (log : Log) :
    (p.forest buffer log).1 = .failure (e.inBuffer line.number line.offset buffer) := by
  obtain ⟨before, after, trees, hlines, hbefore, hfails⟩ := h
  have hskip : ∀ l ∈ before ++ line :: after, p.skips l = false := by
    intro l hl
    rw [← hlines] at hl
    exact skips_of_mem_statementLines hl
  obtain ⟨draft, log', -, -, heq⟩ := @forestOfLines_append _ _ buffer .empty log _ _ hbefore
    (fun l hl => hskip l (List.mem_append_left _ hl)) (line :: after)
  rw [Parser.forest_eq, hlines, heq, forestOfLines_cons (hskip line (by simp)), hfails log']

/-- The statement lines of a buffer in two parts. -/
theorem statementLines_append {a b : String} (ha : Line.Closed a.toList) :
    p.statementLines (a ++ b) = p.statementLines a ++
      (p.statementLines b).map (Line.further (a.toList.count '\n') (byteLength a.toList)) := by
  rw [statementLines, Line.split_append ha, List.filter_append, List.filter_map]
  rfl

/-- Lines have positive numbers. -/
theorem number_pos_of_mem_statementLines (h : line ∈ p.statementLines buffer) : 0 < line.number := by
  obtain ⟨before, -, -, -, hnumber, -⟩ :=
    Line.standsIn_of_mem_split (List.mem_filter.mp h).1
  rw [hnumber]
  exact Nat.add_pos_left Nat.one_pos _

/-- A buffer has a tree for each of its statement lines, or one of them is the first to fail. -/
theorem passes_or_failsAt (p : Parser .standard) (buffer : String) :
    (∃ trees, p.Passes (p.statementLines buffer) trees) ∨
      ∃ line e, p.FailsAt (p.statementLines buffer) line e ∧ e.Placed ∧ 0 < line.number := by
  rcases p.all_give_or_stops (p.statementLines buffer) with
    hall | ⟨before, line, after, trees, hlines, hbefore, ⟨e, hfails⟩ | haborted⟩
  · exact .inl hall
  · right
    -- a statement of the standard grammar only fails at a place
    have hline := p.foreseen_statement line.text .empty
    rw [hfails .empty] at hline
    have hmem : line ∈ p.statementLines buffer := by
      rw [hlines]
      exact List.mem_append_right _ List.mem_cons_self
    cases hline with
    | failure hplaced =>
      exact ⟨line, e, ⟨before, after, trees, hlines, hbefore, hfails⟩, hplaced,
        number_pos_of_mem_statementLines hmem⟩
  · have hline := p.foreseen_statement line.text .empty
    rw [haborted .empty] at hline
    cases hline

theorem passes_of_forest_eq {p : Parser .standard} {log : Log} {f : Forest}
    (h : (p.forest buffer log).1 = .success f) : p.Passes (p.statementLines buffer) f.trees := by
  rcases p.passes_or_failsAt buffer with ⟨trees, hpasses⟩ | ⟨line, e, hfails, -⟩
  · rw [hpasses.forest_eq log] at h
    rwa [← Outcome.success.inj h]
  · rw [hfails.forest_eq log] at h
    cases h

theorem failsAt_of_forest_eq {p : Parser .standard} {log : Log} {e' : ParseError}
    (h : (p.forest buffer log).1 = .failure e') :
    ∃ line e, p.FailsAt (p.statementLines buffer) line e ∧ e.Placed ∧ 0 < line.number ∧
      e' = e.inBuffer line.number line.offset buffer := by
  rcases p.passes_or_failsAt buffer with ⟨trees, hpasses⟩ | ⟨line, e, hfails, hplaced, hnumber⟩
  · rw [hpasses.forest_eq log] at h
    cases h
  · rw [hfails.forest_eq log] at h
    exact ⟨line, e, hfails, hplaced, hnumber, (Outcome.failure.inj h).symm⟩

/-- **Buffers compose.**  Let a buffer be put together of a part that is empty or ends in a line feed and of
    any other part.  If the first part fails, the whole fails in the same way at the same place.  If both
    parts have trees, the whole has those of the first and then those of the second.  If only the second
    fails, the whole fails in the same way, further on by the rows and the bytes of the first part. -/
theorem forest_append (p : Parser .standard) (a b : String) (log log' log'' : Log)
    (ha : a = "" ∨ ∃ front, a = front ++ "\n") :
    (∀ e, (p.forest a log).1 = .failure e →
      ∃ e', (p.forest (a ++ b) log'').1 = .failure e' ∧ e.Further 0 0 (a ++ b) e') ∧
      (∀ A B, (p.forest a log).1 = .success A → (p.forest b log').1 = .success B →
        (p.forest (a ++ b) log'').1 = .success ⟨A.trees ++ B.trees⟩) ∧
      ∀ A e, (p.forest a log).1 = .success A → (p.forest b log').1 = .failure e →
        ∃ e', (p.forest (a ++ b) log'').1 = .failure e' ∧
          e.Further (a.toList.count '\n') a.utf8ByteSize (a ++ b) e' := by
  have hclosed : Line.Closed a.toList := by
    rcases ha with rfl | ⟨front, rfl⟩
    · exact .nil
    · rw [String.toList_append]
      exact Line.closed_append_lineFeed List.not_mem_nil front.toList
  have hlines := @statementLines_append _ p a b hclosed
  refine ⟨?_, ?_, ?_⟩
  · intro e h
    obtain ⟨line, e, hfails, hplaced, hnumber, rfl⟩ := failsAt_of_forest_eq h
    -- the line stands in the whole where it stands in the first part
    have hwhole : p.FailsAt (p.statementLines (a ++ b)) line e := by
      rw [hlines]
      exact hfails.append _
    exact ⟨_, hwhole.forest_eq log'', hplaced.further hnumber⟩
  · intro A B hA hB
    have hwhole : p.Passes (p.statementLines (a ++ b)) (A.trees ++ B.trees) := by
      rw [hlines]
      exact (passes_of_forest_eq hA).append (passes_of_forest_eq hB).further
    exact hwhole.forest_eq log''
  · intro A e hA h
    obtain ⟨line, e, hfails, hplaced, hnumber, rfl⟩ := failsAt_of_forest_eq h
    -- the line comes behind all lines of the first part, none of which fails
    have hwhole : p.FailsAt (p.statementLines (a ++ b))
        (line.further (a.toList.count '\n') (byteLength a.toList)) e := by
      rw [hlines]
      exact (passes_of_forest_eq hA).failsAt hfails.further
    rw [← Text.byteLength_toList]
    exact ⟨_, hwhole.forest_eq log'', hplaced.further hnumber⟩

/-- A second part that fails in its first line, which is the third line of the whole. -/
theorem forest_append_of_failing_end :
    (standard.forest "x\n \n" .empty).1 = .success ⟨[.identifier "x"]⟩ ∧
      (standard.forest ")\ny" .empty).1 =
        .failure (.syntaxError "expected expression, found ')'" ⟨1, 1, 1, 1, 0, 0⟩ ⟨true, ")\ny"⟩) ∧
      (standard.forest "x\n \n)\ny" .empty).1 =
        .failure (.syntaxError "expected expression, found ')'" ⟨3, 1, 3, 1, 4, 0⟩
          ⟨true, "x\n \n)\ny"⟩) := by
  have hfirst : (standard.forest "x\n \n" .empty).1 = .success ⟨[.identifier "x"]⟩ := by
    cbv
  have hsecond : (standard.forest ")\ny" .empty).1 =
      .failure (.syntaxError "expected expression, found ')'" ⟨1, 1, 1, 1, 0, 0⟩
        ⟨true, ")\ny"⟩) := by
    cbv
  obtain ⟨-, -, hfails⟩ :=
    forest_append standard "x\n \n" ")\ny" .empty .empty .empty (.inr ⟨"x\n ", rfl⟩)
  obtain ⟨e, hwhole, hfurther⟩ := hfails _ _ hfirst hsecond
  cases hfurther with
  | syntaxError => exact ⟨hfirst, hsecond, hwhole⟩

end Parser

end ExprForest

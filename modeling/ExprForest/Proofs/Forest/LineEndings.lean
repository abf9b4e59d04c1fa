import ExprForest.Proofs.Forest.Rows

namespace ExprForest

/-!
# Line endings

Whether lines end in a line feed or in a carriage return and a line feed makes no difference to what a buffer
gives.

* `Text.withReturns` — a text with a carriage return before each line feed;
* `Line.forall₂_ofRows_withReturns` — its lines are the same, further on by a byte for each line before;
* `Parser.forest_withReturns` — hence it gives the same forest, or the same error as many bytes further on.
-/

open Text (IsRows byteLength rows)

/-! ### Rows -/

namespace Text

variable {rs : List (List Char)} {body : List Char}

/-- A character, behind a carriage return if it is a line feed. -/
def behindReturn (c : Char) : List Char :=
  if c = '\n' then ['\r', c] else [c]

/-- A text with a carriage return before each line feed. -/
def withReturns (text : String) : String :=
  String.ofList (text.toList.flatMap behindReturn)

theorem flatMap_behindReturn_body (h : '\n' ∉ body) : body.flatMap behindReturn = body := by
  induction body with
  | nil => rfl
  | cons c body ih =>
    rw [List.mem_cons, not_or] at h
    obtain ⟨hc, hbody⟩ := h
    rw [List.flatMap_cons, ih hbody, behindReturn, if_neg (Ne.symm hc), List.singleton_append]

theorem flatMap_behindReturn_row (h : '\n' ∉ body) :
    (body ++ ['\n']).flatMap behindReturn = body ++ ['\r'] ++ ['\n'] := by
  rw [List.flatMap_append, flatMap_behindReturn_body h, List.append_assoc]
  rfl

/-- Rows with carriage returns before their line feeds are rows. -/
theorem IsRows.withReturns (h : IsRows rs) : IsRows (rs.map (List.flatMap behindReturn)) := by
  induction h with
  | nil => exact .nil
  | @last body hne hbody =>
    rw [List.map_singleton, flatMap_behindReturn_body hbody]
    exact .last hne hbody
  | @row body rs hbody _ ih =>
    rw [List.map_cons, flatMap_behindReturn_row hbody]
    exact .row (by simp [hbody]) ih

theorem withReturns_eq (text : String) :
    Text.withReturns text =
      String.ofList ((rows text.toList).map (List.flatMap behindReturn)).flatten := by
  rw [Text.withReturns, ← List.flatMap_def]
  conv_lhs => rw [← flatten_rows text.toList, List.flatten_eq_flatMap, List.flatMap_assoc]
  rfl

end Text

/-! ### Lines -/

namespace Line

variable {rs : List (List Char)} {body : List Char} {buffer : String}

theorem dropReturn_eq_self (h : '\r' ∉ body) : dropReturn body = body := by
  rw [dropReturn, if_neg fun hlast => h (List.mem_of_getLast? hlast)]

theorem dropReturn_append_return (body : List Char) : dropReturn (body ++ ['\r']) = body := by
  rw [dropReturn, if_pos List.getLast?_concat, List.dropLast_concat]

/-- With carriage returns before the line feeds, rows have the same lines, and each line starts a byte
    further on for each line before it. -/
theorem forall₂_ofRows_withReturns (h : IsRows rs) (hreturn : '\r' ∉ rs.flatten)
    (before offset : Nat) :
    List.Forall₂ (fun line line' => line' = line.further 0 (line.number - 1))
      (ofRows (before + 1) offset rs)
      (ofRows (before + 1) (offset + before) (rs.map (List.flatMap Text.behindReturn))) := by
  -- on the rows; `before` counts those passed, each with a carriage return more
  induction h generalizing before offset with
  | nil => exact .nil
  | @last body _ hbody =>
    rw [List.map_singleton, Text.flatMap_behindReturn_body hbody]
    exact .cons rfl .nil
  | @row body rs hbody _ ih =>
    rw [List.flatten_cons, List.mem_append, not_or, List.mem_append, not_or] at hreturn
    obtain ⟨⟨hkept, -⟩, hrest⟩ := hreturn
    have htext : textOf (body ++ ['\r'] ++ ['\n']) = textOf (body ++ ['\n']) := by
      rw [textOf_row hbody, textOf_row (by simp [hbody]), dropReturn_append_return,
        dropReturn_eq_self hkept]
    have hoffset : offset + before + byteLength (body ++ ['\r'] ++ ['\n']) =
        offset + byteLength (body ++ ['\n']) + (before + 1) := by
      have hsize : byteLength ['\r'] = 1 := rfl
      simp only [Text.byteLength_append, hsize]
      omega
    rw [List.map_cons, Text.flatMap_behindReturn_row hbody, ofRows, ofRows, htext, hoffset]
    exact .cons rfl (ih hrest (before + 1) _)

theorem forall₂_split_withReturns (h : '\r' ∉ buffer.toList) :
    List.Forall₂ (fun line line' => line' = line.further 0 (line.number - 1))
      (split buffer) (split (Text.withReturns buffer)) := by
  have hrows := Text.isRows_rows buffer.toList
  rw [← Text.flatten_rows buffer.toList] at h
  rw [Text.withReturns_eq, split_flatten hrows.withReturns, split_eq_ofRows]
  exact forall₂_ofRows_withReturns hrows h 0 0

end Line

/-! ### Parsers -/

/-- Further on in the same row, an error has the same status. -/
theorem ParseError.Further.status_eq {bytes : Nat} {buffer : String} {e e' : ParseError}
    (h : e.Further 0 bytes buffer e') : e'.status = e.status := by
  cases h with
  | syntaxError => rfl
  | invalidToken => rfl

namespace Parser

variable {buffer : String}

/-- The statement lines are the same, as only the text of a line decides whether it is one. -/
theorem forall₂_statementLines (p : Parser .standard) (h : '\r' ∉ buffer.toList) :
    List.Forall₂ (fun line line' => line' = line.further 0 (line.number - 1))
      (p.statementLines buffer) (p.statementLines (Text.withReturns buffer)) := by
  refine List.rel_filter ?_ (Line.forall₂_split_withReturns h)
  rintro line _ rfl
  exact Iff.rfl

/-- **Line endings do not matter.**  A buffer without carriage returns, and the same buffer with one before
    each line feed, give the same forest; or they fail with the same error, the same status included, which
    stands a byte further on for each line before its own. -/
theorem forest_withReturns (p : Parser .standard) (h : '\r' ∉ buffer.toList) (log log' : Log) :
    (∃ f, (p.forest buffer log).1 = .success f ∧
      (p.forest (Text.withReturns buffer) log').1 = .success f) ∨
      ∃ e e' span, (p.forest buffer log).1 = .failure e ∧
        (p.forest (Text.withReturns buffer) log').1 = .failure e' ∧
        e.span? = some span ∧ e.Further 0 (span.firstLine - 1) (Text.withReturns buffer) e' ∧
        e'.status = e.status := by
  rcases forest_along rfl (by rintro line _ rfl; rfl) (p.forall₂_statementLines h) log log' with
    hsame | ⟨i, line, _, e, hi, -, rfl, hgives, hplaced, hfails, hfails'⟩
  · exact .inl hsame
  · right
    have hpos : 0 < line.number := number_pos_of_mem_statementLines (List.mem_of_getElem? hi)
    obtain ⟨span, hspan, hfirst, -⟩ : ∃ span,
        (e.inBuffer line.number line.offset buffer).span? = some span ∧
          span.firstLine = line.number ∧ span.lastLine = line.number := hgives.exists_span hpos
    have hfurther : (e.inBuffer line.number line.offset buffer).Further 0 (span.firstLine - 1)
        (Text.withReturns buffer)
        (e.inBuffer line.number (line.offset + (line.number - 1)) (Text.withReturns buffer)) := by
      rw [hfirst]
      exact hplaced.further hpos
    exact ⟨_, _, span, hfails, hfails', hspan, hfurther, hfurther.status_eq⟩

/-- In the third line, behind a blank one, an error stands two bytes further on. -/
theorem forest_withReturns_of_third_line :
    '\r' ∉ "x\n \n)\ny".toList ∧
      (standard.forest "x\n \n)\ny" .empty).1 =
        .failure (.syntaxError "expected expression, found ')'" ⟨3, 1, 3, 1, 4, 0⟩
          ⟨true, "x\n \n)\ny"⟩) ∧
      (standard.forest "x\r\n \r\n)\r\ny" .empty).1 =
        .failure (.syntaxError "expected expression, found ')'" ⟨3, 1, 3, 1, 6, 0⟩
          ⟨true, "x\r\n \r\n)\r\ny"⟩) := by
  have hreturn : '\r' ∉ "x\n \n)\ny".toList := by decide
  have hfails : (standard.forest "x\n \n)\ny" .empty).1 =
      .failure (.syntaxError "expected expression, found ')'" ⟨3, 1, 3, 1, 4, 0⟩
        ⟨true, "x\n \n)\ny"⟩) := by
    cbv
  have htext : Text.withReturns "x\n \n)\ny" = "x\r\n \r\n)\r\ny" := by cbv
  rcases forest_withReturns standard hreturn .empty .empty with
    ⟨f, hsuccess, -⟩ | ⟨e, e', span, he, he', hspan, hfurther, -⟩
  · rw [hfails] at hsuccess
    cases hsuccess
  · obtain rfl := Outcome.failure.inj (hfails.symm.trans he)
    obtain rfl := Option.some.inj hspan
    rw [htext] at he' hfurther
    cases hfurther with
    | syntaxError => exact ⟨hreturn, hfails, he'⟩

end Parser

end ExprForest

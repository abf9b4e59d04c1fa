import ExprForest.Proofs.Lexical.Spelling
import ExprForest.Proofs.Statement.ErrorPlace
import ExprForest.Proofs.Text.Position

namespace ExprForest

/-!
# How a line fails

Every failure of a line stands at some characters of it.

* `Token.exists_of_scan_eq_error` — where a stray character stands in its line;
* `EngineError.StandsAt` — an invalid token or a syntax error over some characters of a line;
* `Statement.exists_standsAt` — a line without a tree fails in one of these two ways.
-/

open Text (byteLength)

/-! ### Tokens in their line -/

namespace Token

variable {start limit depth : Nat} {cs : List Char} {ts : List Token} {t : Token}

/-- A stray character stands behind as many bytes as it tells. -/
theorem exists_of_scan_eq_error {read : List Token} {stray : Stray}
    (h : scan read start cs = .error stray) :
    ∃ before behind, cs = before ++ stray.char :: behind ∧
      stray.start = start + byteLength before := by
  fun_induction scan read start cs with
  | case1 => cases h
  | case2 read start c cs _ ih =>
    obtain ⟨before, behind, rfl, hstart⟩ := ih h
    refine ⟨c :: before, behind, rfl, ?_⟩
    rw [hstart, Text.byteLength_cons, Nat.add_assoc]
  | case3 read start c cs _ _ =>
    obtain rfl := Except.error.inj h
    exact ⟨[], cs, rfl, rfl⟩
  | case4 read start c cs _ l rest hread _ ih =>
    -- the rest of the text stands behind the lexeme
    obtain ⟨before, behind, rfl, hstart⟩ := ih h
    obtain ⟨-, hcs⟩ := Lexeme.read?_eq_some_iff.mp hread
    refine ⟨l.chars ++ before, behind, ?_, ?_⟩
    · rw [hcs, List.append_assoc]
    · rw [hstart, Text.byteLength_append, Nat.add_assoc]

/-- What opens a level too many is a parenthesis of the list. -/
theorem mem_of_firstDeeper? (h : firstDeeper? limit depth ts = some t) :
    t ∈ ts ∧ t.lexeme = .openParen := by
  induction ts generalizing depth with
  | nil => cases h
  | cons u us ih =>
    rw [firstDeeper?] at h
    split at h
    · rename_i hdeeper
      obtain rfl := Option.some.inj h
      exact ⟨List.mem_cons_self, hdeeper.1⟩
    · obtain ⟨hmem, hopen⟩ := ih h
      exact ⟨List.mem_cons_of_mem _ hmem, hopen⟩

end Token

/-! ### Failures of lines -/

theorem Span.cover_self (line : String) (start : Nat) : cover line start start = point line start :=
  if_pos (Nat.le_refl start)

/-- A failure of a line at the characters `inside` behind `before`: an invalid token, whose lexeme they
    are, or a syntax error. -/
inductive EngineError.StandsAt (line : String) (before inside : List Char) : EngineError → Prop where
  | invalidToken {behind : List Char} :
      line.toList = before ++ (inside ++ behind) →
      StandsAt line before inside (.invalidToken (String.ofList inside)
        (.cover line (byteLength before) (byteLength before + byteLength inside)))
  | syntaxError {message : String} {behind : List Char} :
      line.toList = before ++ (inside ++ behind) →
      StandsAt line before inside (.syntaxError message
        (.cover line (byteLength before) (byteLength before + byteLength inside)))

namespace Statement

variable {limit : Nat} {line : String} {e : EngineError} {ts : List Token} {r : Rejection}

/-- A stray character is an invalid token. -/
theorem standsAt_strayFailure {stray : Stray} (h : Token.ofLine line = .error stray) :
    ∃ before, (strayFailure line stray).StandsAt line before [stray.char] := by
  obtain ⟨before, behind, hline, hstart⟩ := Token.exists_of_scan_eq_error h
  refine ⟨before, ?_⟩
  rw [Nat.zero_add] at hstart
  have hfailure : strayFailure line stray = .invalidToken (String.ofList [stray.char])
      (.cover line (byteLength before) (byteLength before + byteLength [stray.char])) := by
    rw [strayFailure, hstart, String.singleton_eq_ofList, Text.byteLength_cons, Text.byteLength_nil,
      Nat.add_zero]
  rw [hfailure]
  exact .invalidToken hline

/-- A parenthesis that nests too deep is a syntax error. -/
theorem standsAt_tooDeep {paren : Token} (hlex : Token.Lexes line ts)
    (h : Token.firstDeeper? limit 0 ts = some paren) :
    ∃ before, (tooDeep line limit paren).StandsAt line before ['('] := by
  obtain ⟨hmem, hopen⟩ := Token.mem_of_firstDeeper? h
  obtain ⟨before, behind, hline, hstart⟩ := hlex.exists_of_mem hmem
  refine ⟨before, ?_⟩
  rw [hopen] at hline
  rw [Nat.zero_add] at hstart
  rw [tooDeep, hstart]
  exact .syntaxError hline

/-- What the grammar rejects is a syntax error before a token or at the end of the line. -/
theorem standsAt_failure (hlex : Token.Lexes line ts) (h : read ts = .error r) :
    ∃ before, (r.failure line).StandsAt line before [] := by
  have hoffset : ∃ before behind, line.toList = before ++ ([] ++ behind) ∧
      r.offset line = byteLength before := by
    cases htoken : r.token with
    | none =>
      refine ⟨line.toList, [], (List.append_nil _).symm, ?_⟩
      rw [Rejection.offset, htoken, Text.byteLength_toList]
    | some t =>
      obtain ⟨before, behind, hline, hstart⟩ := hlex.exists_of_mem (mem_of_read_eq_error h htoken)
      refine ⟨before, t.lexeme.chars ++ behind, hline, ?_⟩
      rw [Rejection.offset, htoken]
      show t.start = _
      rw [hstart, Nat.zero_add]
  obtain ⟨before, behind, hline, hoffset⟩ := hoffset
  refine ⟨before, ?_⟩
  rw [Rejection.failure_eq (stop_ne_notANumber hlex h), hoffset, ← Span.cover_self]
  exact .syntaxError hline

/-- **Two ways to fail.**  A line without a tree fails with an invalid token or a syntax error, over some
    characters of it. -/
theorem exists_standsAt (h : outcome limit line = .error e) :
    ∃ before inside, e.StandsAt line before inside := by
  -- the three passes in turn
  cases hscan : Token.ofLine line with
  | error stray =>
    rw [outcome, hscan] at h
    obtain rfl := Except.error.inj h
    obtain ⟨before, hbefore⟩ := standsAt_strayFailure hscan
    exact ⟨before, _, hbefore⟩
  | ok ts =>
    have hlex := Token.ofLine_eq_ok_iff.mp hscan
    rw [outcome, hscan] at h
    cases hdeeper : Token.firstDeeper? limit 0 ts with
    | some paren =>
      simp only [hdeeper] at h
      obtain rfl := Except.error.inj h
      obtain ⟨before, hbefore⟩ := standsAt_tooDeep hlex hdeeper
      exact ⟨before, _, hbefore⟩
    | none =>
      simp only [hdeeper, reduce_of_lexes hlex] at h
      cases hread : read ts with
      | ok t =>
        rw [hread] at h
        cases h
      | error r =>
        rw [hread] at h
        obtain rfl := Except.error.inj h
        obtain ⟨before, hbefore⟩ := standsAt_failure hlex hread
        exact ⟨before, _, hbefore⟩

end Statement

end ExprForest

import ExprForest.Proofs.Lexical.Spelling
import ExprForest.Proofs.Lexical.Values
import ExprForest.Proofs.Statement.FurthestFailure
import ExprForest.Statement.Diagnosis

namespace ExprForest.Statement

/-!
# What the grammar gives a line

The search of a line and the reader give it the same tree, or the same failure.

* `State.lack` — why the reader stops in a state, whatever stops it;
* `Rejection.failure_eq` — a rejected line of well-formed lexemes gives a syntax error;
* `fits_of_lexes`, `Search.statement_ne_tooDeep` — the tokens of a line that keep to some levels fit them, and
  the search of its characters is not given up;
* `Stop.words`, `Stop.listing_words`, `foundAt_offset` — what the rules tried give for a list, and what stands
  in their place;
* `reduce_of_lexes` — what the search of a line amounts to.
-/

variable {limit : Nat} {line : String} {ts : List Token} {r : Rejection} {s : State} {context : Context}
variable {l : Lexeme} {text : List Char} {stop : Stop} {token : Token} {tries : Tries} {t : Tree}

/-! ### Why the reader stops -/

/-- Why the reader stops in a state, if it does. -/
def State.lack : State → Stop
  | operand context => .operandMissing (!context.level.bases.isEmpty)
  | name context _ => context.missing
  | complete context _ => context.missing

/-- The lexeme that stops the reader does not matter for why it stops, as every number has a value. -/
theorem State.eq_lack_of_step (hl : l.WellFormed) (h : s.step l = .error stop) : stop = s.lack := by
  cases s with
  | operand context =>
    cases l with
    | number text =>
      obtain ⟨value, hvalue⟩ := Decimal.exists_read?_eq_some hl
      rw [State.step, hvalue] at h
      cases h
    | name _ => cases h
    | openParen => cases h
    | _ => exact (Except.error.inj h).symm
  | name context callee =>
    by_cases hopen : l = .openParen
    · subst hopen
      cases h
    · rw [State.step_name hopen] at h
      exact Context.resume_eq_error h
  | complete context t => exact Context.resume_eq_error h

theorem Context.finish_eq_error (h : context.finish t = .error stop) : stop = context.missing := by
  obtain ⟨level, frames⟩ := context
  cases frames with
  | nil => cases h
  | cons frame frames => exact (Except.error.inj h).symm

theorem State.eq_lack_of_finish (h : s.finish = .error stop) : stop = s.lack := by
  cases s with
  | operand context => exact (Except.error.inj h).symm
  | name context callee => exact Context.finish_eq_error h
  | complete context t => exact Context.finish_eq_error h

theorem State.lack_ne_notANumber : s.lack ≠ .notANumber text := by
  cases s <;> nofun

/-- The only lexeme that does not read as a number is one that is not well-formed. -/
theorem State.step_ne_notANumber (hl : l.WellFormed) : s.step l ≠ .error (.notANumber text) :=
  fun h => State.lack_ne_notANumber (State.eq_lack_of_step hl h).symm

/-- The end of the line is no number either. -/
theorem State.finish_ne_notANumber : s.finish ≠ .error (.notANumber text) :=
  fun h => State.lack_ne_notANumber (State.eq_lack_of_finish h).symm

/-- A reader that was stopped by a sign gives a syntax error, an empty span where it stopped. -/
theorem Rejection.failure_eq {r : Rejection} (h : ∀ text, r.stop ≠ .notANumber text) :
    r.failure line =
      .syntaxError ("expected " ++ r.stop.expected ++ ", found " ++ foundText r.token)
        (.point line (r.offset line)) := by
  unfold Rejection.failure
  split
  · rename_i text htext
    exact absurd htext (h text)
  · rfl

/-- The token that cannot continue is one of the line. -/
theorem mem_of_read_eq_error (h : read ts = .error r) (ht : r.token = some token) : token ∈ ts := by
  obtain ⟨before, after, s, rfl, -, htoken, -⟩ := run_eq_error_iff.mp h
  refine List.mem_append_right before (List.mem_of_mem_head? ?_)
  rw [← htoken, ht]
  exact rfl

/-- A line of tokens is never rejected for a number without a value. -/
theorem stop_ne_notANumber (hlex : Token.Lexes line ts) (h : read ts = .error r)
    (text : List Char) : r.stop ≠ .notANumber text := by
  obtain ⟨before, after, s, rfl, -, -, hstop⟩ := run_eq_error_iff.mp h
  intro hnumber
  rw [hnumber] at hstop
  cases after with
  | nil => exact State.finish_ne_notANumber hstop
  | cons next after => exact State.step_ne_notANumber (hlex.wellFormed next (by simp)) hstop

/-! ### Levels of a line -/

/-- The tokens of a line that keep to the nesting limit fit its levels. -/
theorem fits_of_lexes (hlex : Token.Lexes line ts)
    (hnest : Lexeme.peak 0 (ts.map Token.lexeme) ≤ limit) : Fits limit (ts.map Token.lexeme) := by
  refine ⟨⟨0, by omega⟩, fun text hmem => ?_⟩
  obtain ⟨token, htoken, hnumber⟩ := List.mem_map.mp hmem
  have hformed := hlex.wellFormed token htoken
  rw [hnumber] at hformed
  exact Decimal.exists_read?_eq_some hformed

/-- **Levels.**  On the characters of a line that keeps to the nesting limit, expressions are searched no
    deeper than the limit: the search is not given up. -/
theorem Search.statement_ne_tooDeep (hlex : Token.Lexes line ts)
    (hnest : Lexeme.peak 0 (ts.map Token.lexeme) ≤ limit) :
    (Search.statement limit (.start line) .none).1 ≠ .tooDeep := by
  have hfollows := Search.follows_statement limit hlex
  intro hdeep
  rw [hdeep] at hfollows
  rcases Matcher.statement_cases (fits_of_lexes hlex hnest) with ⟨parts, t, hmatched, -, -⟩ | ⟨hfailed, -⟩
  · rw [hmatched] at hfollows
    cases hfollows
  · rw [hfailed] at hfollows
    cases hfollows

/-- Parentheses nest no deeper than the line is long. -/
theorem fits_length (hlex : Token.Lexes line ts) : Fits line.length (ts.map Token.lexeme) := by
  refine fits_of_lexes hlex ?_
  have hpeak := Lexeme.peak_le 0 (ts.map Token.lexeme)
  have htokens : ts.length ≤ line.toList.length := (Place.shows_start hlex).length_le
  rw [List.length_map] at hpeak
  rw [String.length_toList] at htokens
  omega

/-! ### Lists -/

/-- The words for the rules tried where a reader stops. -/
def Stop.words (stop : Stop) : List String :=
  (⟨0, stop.tried⟩ : Tries).words

theorem Tries.words_eq (h : tries.rules = stop.tried) : tries.words = stop.words := by
  rw [Tries.words, Tries.expected, h]
  rfl

/-- A chain that fails at once is an expression to the message, but behind a `^` the lexemes tried are. -/
theorem Stop.words_operandMissing (afterCaret : Bool) :
    (Stop.operandMissing afterCaret).words =
      if afterCaret then ["number", "identifier"] else ["expression"] := by
  cases afterCaret <;> rfl

theorem Stop.words_operatorMissing (nested : Bool) :
    (Stop.operatorMissing nested).words =
      (if nested then [] else ["end of line"]) ++ ["'+'", "'-'", "'*'", "'/'", "'^'", "'='"] := by
  cases nested <;> rfl

/-- The list of the rules tried where a reader stops. -/
theorem Stop.listing_words (h : ∀ text, stop ≠ .notANumber text) : listing stop.words = stop.expected := by
  rcases stop with (_ | _) | (_ | _) | text
  · rfl
  · rfl
  · rfl
  · rfl
  · exact absurd rfl (h text)

/-- Some rule is tried wherever a reader stops. -/
theorem Tries.expected_ne_nil (htried : tries.rules = stop.tried) (h : ∀ text, stop ≠ .notANumber text) :
    tries.expected ≠ [] := by
  rw [Tries.expected, htried]
  rcases stop with (_ | _) | (_ | _) | text
  · exact List.cons_ne_nil _ _
  · exact List.cons_ne_nil _ _
  · exact List.cons_ne_nil _ _
  · exact List.cons_ne_nil _ _
  · exact absurd rfl (h text)

/-- Where rules were tried, the failure of a line lists the words for them. -/
theorem Tries.failure_eq_syntaxError (h : tries.expected ≠ []) :
    tries.failure line =
      .syntaxError ("expected " ++ listing tries.words ++ ", found " ++ foundAt line tries.place)
        (.point line tries.place) := by
  rw [Tries.failure]
  split
  · rename_i hnil
    exact absurd hnil h
  · rfl

/-- At the place where the reader stops stands the token that cannot continue, or the end of the line. -/
theorem foundAt_offset (hlex : Token.Lexes line ts) (h : read ts = .error r) :
    foundAt line (r.offset line) = foundText r.token := by
  cases htoken : r.token with
  | none =>
    have hend : Text.charAt? line line.utf8ByteSize = none := by
      rw [← Text.byteLength_toList]
      exact Text.charAt?_byteLength (List.append_nil _).symm
    rw [Rejection.offset, htoken, foundAt, hend]
    rfl
  | some token =>
    have hmem := mem_of_read_eq_error h htoken
    obtain ⟨before, behind, hline, hstart⟩ := hlex.exists_of_mem hmem
    obtain ⟨c, cs, hchars⟩ := List.exists_cons_of_ne_nil (hlex.wellFormed token hmem).chars_ne_nil
    rw [hchars] at hline
    rw [Nat.zero_add] at hstart
    have hat : Text.charAt? line token.start = some c := by
      rw [hstart]
      exact Text.charAt?_byteLength hline
    rw [Rejection.offset, htoken, foundText, hchars]
    show foundAt line token.start = _
    rw [foundAt, hat]

/-- The failure that the tries of a line tell is the one that the reader tells. -/
theorem Tries.failure_eq (hlex : Token.Lexes line ts) (h : read ts = .error r) :
    (⟨r.offset line, r.stop.tried⟩ : Tries).failure line = r.failure line := by
  have hnumber := stop_ne_notANumber hlex h
  rw [Tries.failure_eq_syntaxError (Tries.expected_ne_nil rfl hnumber), Tries.words_eq rfl,
    Stop.listing_words hnumber, foundAt_offset hlex h, Rejection.failure_eq hnumber]

/-! ### Lines -/

/-- **Search and reader.**  The parts that the search of a line finds have the tree that the reader gives it;
    or it finds none, and what it tried in vain gives the failure that the reader gives. -/
theorem reduce_of_lexes (hlex : Token.Lexes line ts) :
    reduce line = (read ts).mapError (Rejection.failure line) := by
  have hfits := fits_length hlex
  cases hread : read ts with
  | ok t =>
    obtain ⟨parts, hsearch, htree⟩ := search_eq_ok hlex hfits hread
    rw [reduce, hsearch]
    exact htree
  | error r =>
    rw [reduce, search_eq_error hlex hfits hread]
    exact congrArg Except.error (Tries.failure_eq hlex hread)

end ExprForest.Statement

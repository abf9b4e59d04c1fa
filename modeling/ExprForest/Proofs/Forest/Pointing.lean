import ExprForest.ParseError.Report
import ExprForest.Proofs.Forest.AllOrNothing
import ExprForest.Proofs.Forest.Lines
import ExprForest.Proofs.Statement.Failures

namespace ExprForest

/-!
# Where errors of a buffer point

* `ParseError.PointsAt` — an error has a place in a buffer, and its place and its frame are at some
  characters of it;
* `EngineError.StandsAt.pointsAt` — a failure of a line, moved to the buffer around the line, points at
  the same characters;
* `Parser.forestOfLines_cases` — a buffer fails as one of its lines does;
* `Parser.forest_fails_at_its_characters` — hence a failed parse points into its buffer.
-/

open Text (byteLength)

/-! ### Errors -/

/-- Whether an error points at the characters `inside` of a buffer that stand behind `before`.  Its source
    is the whole buffer, its span marks them, they lie in one row, and the frame of its report covers
    their bytes. -/
structure ParseError.PointsAt (e : ParseError) (buffer : String) (before inside : List Char) :
    Prop where
  /-- The characters are some of the buffer. -/
  stands : ∃ behind, buffer.toList = before ++ (inside ++ behind)
  one_row : '\n' ∉ inside
  place : ∃ span, e.place? = some (span, ⟨true, buffer⟩) ∧ span.Marks before inside
  frame : ∃ label,
    e.frame? = some ⟨⟨true, buffer⟩, byteLength before, byteLength inside, label⟩

section

variable {buffer : String} {line : Line} {before inside : List Char} {e : EngineError}

/-- An error with a marked place, and with its label under that place, points there. -/
theorem ParseError.PointsAt.of_place {e : ParseError} {span : Span} {label : String}
    (hplace : e.place? = some (span, ⟨true, buffer⟩)) (hstretch : e.stretch? = some span.stretch)
    (hlabel : e.label? = some label)
    (hmarks : span.Marks before inside)
    (hstands : ∃ behind, buffer.toList = before ++ (inside ++ behind)) (hrow : '\n' ∉ inside) :
    e.PointsAt buffer before inside := by
  refine ⟨hstands, hrow, ⟨span, hplace, hmarks⟩, label, ?_⟩
  rw [ParseError.frame?, hplace, hstretch, hlabel, ← hmarks.offset_eq, ← hmarks.length_eq]
  rfl

/-- A failure at some characters of a line points at the same characters of a buffer, where the line
    stands in the buffer. -/
theorem EngineError.StandsAt.pointsAt (h : e.StandsAt line.text before inside)
    (hline : line.StandsIn buffer.toList) :
    ∃ before', ((e.asFailure line.text).inBuffer line.number line.offset buffer).PointsAt
      buffer before' inside := by
  obtain ⟨pre, behind, hbuffer, hlast, hnumber, hoffset, hfeed⟩ := hline
  -- the same for both kinds of failure
  have hpoint : ∀ {after : List Char}, line.text.toList = before ++ (inside ++ after) →
      ((Span.cover line.text (byteLength before) (byteLength before + byteLength inside)).shift
          line.number line.offset).Marks (pre ++ before) inside ∧
        (∃ behind', buffer.toList = (pre ++ before) ++ (inside ++ behind')) ∧ '\n' ∉ inside := by
    intro after hafter
    have hmarks := Span.marks_cover hafter hfeed
    rw [hafter] at hfeed
    have hbefore : '\n' ∉ before := fun hmem => hfeed (by simp [hmem])
    have hinside : '\n' ∉ inside := fun hmem => hfeed (by simp [hmem])
    rw [hnumber, hoffset]
    refine ⟨hmarks.shift hlast hbefore hinside, ⟨after ++ behind, ?_⟩, hinside⟩
    rw [hbuffer, hafter]
    simp only [List.append_assoc]
  cases h with
  | invalidToken hafter =>
    obtain ⟨hmarks, hstands, hrow⟩ := hpoint hafter
    exact ⟨pre ++ before, .of_place rfl rfl rfl hmarks hstands hrow⟩
  | syntaxError hafter =>
    obtain ⟨hmarks, hstands, hrow⟩ := hpoint hafter
    exact ⟨pre ++ before, .of_place rfl rfl rfl hmarks hstands hrow⟩

end

/-! ### Buffers -/

namespace Parser

/-- Lines of a buffer all succeed, or they fail or break off as one of them does. -/
theorem forestOfLines_cases {g : Grammar} (p : Parser g) (buffer : String) (draft : Forest.Draft)
    (log : Log) (lines : List Line) :
    (∃ f, (p.forestOfLines buffer draft log lines).1 = .success f) ∨
      ∃ line ∈ lines, ∃ log',
        (∃ e, (p.statement line.text log').1 = .failure e ∧
          (p.forestOfLines buffer draft log lines).1 =
            .failure (e.inBuffer line.number line.offset buffer)) ∨
        (p.statement line.text log').1 = .aborted := by
  induction lines generalizing draft log with
  | nil => exact .inl ⟨_, rfl⟩
  | cons line lines ih =>
    cases hskip : p.skips line with
    | true =>
      rw [forestOfLines_skip hskip]
      rcases ih draft log with hall | ⟨stop, hmem, hstop⟩
      · exact .inl hall
      · exact .inr ⟨stop, List.mem_cons_of_mem _ hmem, hstop⟩
    | false =>
      rw [forestOfLines_cons hskip]
      cases hstatement : (p.statement line.text log).1 with
      | success t =>
        rcases ih (draft.push t) (p.statement line.text log).2 with hall | ⟨stop, hmem, hstop⟩
        · exact .inl hall
        · exact .inr ⟨stop, List.mem_cons_of_mem _ hmem, hstop⟩
      | failure e => exact .inr ⟨line, List.mem_cons_self, log, .inl ⟨e, hstatement, rfl⟩⟩
      | aborted => exact .inr ⟨line, List.mem_cons_self, log, .inr hstatement⟩

/-- A statement of the standard grammar that fails does so at some characters of its line. -/
theorem exists_standsAt_of_failure {p : Parser .standard} {line : String} {log : Log}
    {e : ParseError} (h : (p.statement line log).1 = .failure e) :
    ∃ e' before inside, EngineError.StandsAt line before inside e' ∧ e = e'.asFailure line := by
  rw [statement_standard] at h
  cases houtcome : Statement.outcome p.settings.maxNesting line with
  | ok t =>
    rw [houtcome] at h
    cases h
  | error e' =>
    rw [houtcome] at h
    obtain ⟨before, inside, hstands⟩ := Statement.exists_standsAt houtcome
    exact ⟨e', before, inside, hstands, (Outcome.failure.inj h).symm⟩

/-- **Errors point into the buffer.**  A buffer parses, or it fails with an error that has a place: at
    characters of the buffer that lie in one row, with their bytes, row and columns, and with the whole
    buffer as its source.  The lexeme of an invalid token is just these characters. -/
theorem forest_fails_at_its_characters (p : Parser .standard) (buffer : String) (log : Log) :
    (∃ f, (p.forest buffer log).1 = .success f) ∨
      ∃ e before inside, (p.forest buffer log).1 = .failure e ∧
        e.PointsAt buffer before inside ∧
        ∀ lexeme span source, e = .invalidToken lexeme span source → lexeme.toList = inside := by
  rcases p.forestOfLines_cases buffer .empty log (Line.split buffer) with
    hall | ⟨line, hmem, log', ⟨e, hstatement, hforest⟩ | haborted⟩
  · exact .inl hall
  · right
    obtain ⟨e', before, inside, hstands, rfl⟩ := exists_standsAt_of_failure hstatement
    obtain ⟨before', hpoints⟩ := hstands.pointsAt (Line.standsIn_of_mem_split hmem)
    refine ⟨_, before', inside, hforest, hpoints, ?_⟩
    intro lexeme span source hinvalid
    cases hstands with
    | invalidToken _ =>
      obtain ⟨rfl, -, -, -⟩ := ParseError.tokenFailure.inj hinvalid
      exact String.toList_ofList
    | syntaxError _ => cases hinvalid
  · -- engines of the standard grammar do not break off
    rw [statement_standard] at haborted
    split at haborted <;> cases haborted

end Parser

end ExprForest

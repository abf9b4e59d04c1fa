import ExprForest.Proofs.Forest.BlankLines
import ExprForest.Proofs.Forest.Rows

namespace ExprForest

/-!
# Passing over blank lines

Where blank lines are passed over, a buffer parses as it would without them.

* `Text.withoutBlankRows` — a buffer without its blank rows;
* `Line.forall₂_ofRows` — its lines are the other lines of the buffer, which stand further on there;
* `Parser.skipping` — the same parser, which passes over blank lines or does not;
* `Parser.skipping_only_filters` — passing over blank lines does what taking them out does, and without it a
  buffer has trees only if none of its lines is blank.
-/

open Text (IsRows byteLength rows)

/-! ### Blank rows -/

/-- A buffer without the rows that hold white space only. -/
def Text.withoutBlankRows (buffer : String) : String :=
  String.ofList ((rows buffer.toList).filter fun row => !row.all isWhiteSpace).flatten

namespace Line

variable {rs : List (List Char)} {row : List Char} {number offset : Nat}

/-- A carriage return at the end is white space. -/
theorem all_isWhiteSpace_dropReturn (body : List Char) :
    (dropReturn body).all Text.isWhiteSpace = body.all Text.isWhiteSpace := by
  have hreturn : Text.isWhiteSpace '\r' = true := by decide
  rcases dropReturn_cases body with hcut | ⟨hself, -⟩
  · conv_rhs => rw [hcut]
    simp [hreturn]
  · rw [hself]

/-- A line is blank if its row is, line feed and carriage return included. -/
theorem isBlank_textOf (h : IsRows (row :: rs)) :
    Text.isBlank (String.ofList (textOf row)) = row.all Text.isWhiteSpace := by
  have hfeed : Text.isWhiteSpace '\n' = true := by decide
  rw [Text.isBlank, String.toList_ofList]
  cases h with
  | last _ hbody => rw [textOf_body hbody, all_isWhiteSpace_dropReturn]
  | row hbody _ =>
    rw [textOf_row hbody, all_isWhiteSpace_dropReturn]
    simp [hfeed]

/-- Without the blank rows among them, rows have the lines that are not blank.  Among all rows each of these
    stands further on, by the blank rows before it and by their bytes. -/
theorem forall₂_ofRows (h : IsRows rs) (skipped bytes : Nat) :
    List.Forall₂ (fun line line' => Text.isBlank line.text = false ∧
        ∃ skipped bytes, line' = line.further skipped bytes)
      (ofRows number offset (rs.filter fun row => !row.all Text.isWhiteSpace))
      ((ofRows (number + skipped) (offset + bytes) rs).filter fun line => !Text.isBlank line.text) := by
  -- on the rows; what was skipped grows by each blank one
  induction rs generalizing number offset skipped bytes with
  | nil => exact .nil
  | cons row rs ih =>
    have hblank := isBlank_textOf h
    have hrest : IsRows rs := @IsRows.of_append [row] rs h
    cases hrow : row.all Text.isWhiteSpace with
    | true =>
      rw [hrow] at hblank
      have hnumber : number + skipped + 1 = number + (skipped + 1) := Nat.add_assoc _ _ _
      have hoffset : offset + bytes + byteLength row = offset + (bytes + byteLength row) :=
        Nat.add_assoc _ _ _
      rw [List.filter_cons_of_neg (by simp [hrow]), ofRows,
        List.filter_cons_of_neg (by simp [hblank]), hnumber, hoffset]
      exact ih hrest (skipped + 1) (bytes + byteLength row)
    | false =>
      rw [hrow] at hblank
      have hnumber : number + skipped + 1 = number + 1 + skipped := Nat.add_right_comm _ _ _
      have hoffset : offset + bytes + byteLength row = offset + byteLength row + bytes :=
        Nat.add_right_comm _ _ _
      rw [List.filter_cons_of_pos (by simp [hrow]), ofRows, ofRows,
        List.filter_cons_of_pos (by simp [hblank]), hnumber, hoffset]
      exact .cons ⟨hblank, skipped, bytes, rfl⟩ (ih hrest skipped bytes)

/-- The lines of a buffer without its blank rows. -/
theorem forall₂_split_withoutBlankRows (buffer : String) :
    List.Forall₂ (fun line line' => Text.isBlank line.text = false ∧
        ∃ skipped bytes, line' = line.further skipped bytes)
      (split (Text.withoutBlankRows buffer))
      ((split buffer).filter fun line => !Text.isBlank line.text) := by
  have hrows := Text.isRows_rows buffer.toList
  rw [Text.withoutBlankRows, split_flatten (hrows.filter _), split_eq_ofRows buffer]
  exact forall₂_ofRows hrows 0 0

end Line

/-! ### Parsers -/

namespace Parser

variable {g : Grammar} {buffer : String}

/-- The same parser, which passes over blank lines or does not. -/
def skipping (p : Parser g) (skip : Bool) : Parser g :=
  ⟨{ p.settings with skipBlankLines := skip }, p.admissible⟩

/-- Where blank lines are passed over, the statement lines are the others. -/
theorem statementLines_skipping (p : Parser g) (buffer : String) :
    (p.skipping true).statementLines buffer =
      (Line.split buffer).filter fun line => !Text.isBlank line.text := rfl

/-- Where none is blank, all lines are statement lines, whether blank lines are passed over or not. -/
theorem statementLines_skipping_of_not_isBlank (p : Parser g) (skip : Bool)
    (h : ∀ line ∈ Line.split buffer, Text.isBlank line.text = false) :
    (p.skipping skip).statementLines buffer = Line.split buffer := by
  rw [statementLines, List.filter_eq_self]
  intro line hline
  simp [skips, h line hline]

/-- Whether blank lines are passed over does not matter for the lines that are parsed. -/
theorem passes_skipping_iff {p : Parser .standard} {skip skip' : Bool} {lines : List Line}
    {trees : List Tree} : (p.skipping skip).Passes lines trees ↔ (p.skipping skip').Passes lines trees := by
  have hsame : List.Forall₂ (· = ·) lines lines := List.forall₂_same.mpr fun _ _ => rfl
  have htext : ∀ l l' : Line, l = l' → l'.text = l.text := by
    rintro l _ rfl
    rfl
  exact ⟨Passes.along rfl htext hsame, Passes.along rfl htext hsame⟩

/-- **Passing over blank lines only filters.**  Where blank lines are passed over, a buffer gives the same
    forest as without its blank rows, or both fail with the same error at the line in the same position:
    in the buffer itself it stands further on, by the rows and the bytes left out before it.  Where blank
    lines are not passed over, a buffer gives a forest exactly if it gives this forest where they are, and
    none of its lines is blank. -/
theorem skipping_only_filters (p : Parser .standard) (buffer : String) (log log' log'' : Log) :
    ((∃ f, ((p.skipping true).forest buffer log).1 = .success f ∧
        ((p.skipping true).forest (Text.withoutBlankRows buffer) log').1 = .success f) ∨
      ∃ (i : Nat) (line : Line) (skipped bytes : Nat) (e e' : ParseError),
        (Line.split (Text.withoutBlankRows buffer))[i]? = some line ∧
          ((Line.split buffer).filter fun l => !Text.isBlank l.text)[i]? =
            some (line.further skipped bytes) ∧
          ((p.skipping true).forest (Text.withoutBlankRows buffer) log').1 = .failure e ∧
          ((p.skipping true).forest buffer log).1 = .failure e' ∧
          e.Further skipped bytes buffer e' ∧
          ∃ span, e'.span? = some span ∧ span.firstLine = (line.further skipped bytes).number ∧
            span.lastLine = (line.further skipped bytes).number) ∧
      ∀ f, ((p.skipping false).forest buffer log'').1 = .success f ↔
        ((p.skipping true).forest buffer log).1 = .success f ∧
          ∀ line ∈ Line.split buffer, Text.isBlank line.text = false := by
  constructor
  · obtain ⟨hlines, hfurther⟩ :=
      (List.forall₂_and_left _ _).mp (Line.forall₂_split_withoutBlankRows buffer)
    -- no line is skipped once the blank rows are left out
    have hall := statementLines_skipping_of_not_isBlank p true hlines
    rw [← hall, ← statementLines_skipping p] at hfurther
    rcases forest_along rfl (by rintro l _ ⟨_, _, rfl⟩; rfl) hfurther log' log with
      ⟨f, hwithout, hwith⟩ |
      ⟨i, line, _, e, hi, hi', ⟨skipped, bytes, rfl⟩, hgives, hplaced, hwithout, hwith⟩
    · exact .inl ⟨f, hwith, hwithout⟩
    · have hpos : 0 < line.number :=
        number_pos_of_mem_statementLines (List.mem_of_getElem? hi)
      have hthere : (p.skipping true).Gives (line.further skipped bytes) (.failure e) := hgives
      rw [hall] at hi
      exact .inr ⟨i, line, skipped, bytes, _, _, hi, hi', hwithout, hwith, hplaced.further hpos,
        hthere.exists_span (Nat.lt_of_lt_of_le hpos (Nat.le_add_right _ _))⟩
  · intro f
    constructor
    · intro h
      have hpasses := passes_of_forest_eq h
      -- none of the lines that have trees is blank
      have hlines : ∀ line ∈ Line.split buffer, Text.isBlank line.text = false := by
        rw [statementLines_eq_split rfl] at hpasses
        exact hpasses.not_isBlank
      rw [statementLines_skipping_of_not_isBlank p false hlines,
        ← statementLines_skipping_of_not_isBlank p true hlines] at hpasses
      exact ⟨(passes_skipping_iff.mp hpasses).forest_eq log, hlines⟩
    · rintro ⟨h, hlines⟩
      have hpasses := passes_of_forest_eq h
      rw [statementLines_skipping_of_not_isBlank p true hlines,
        ← statementLines_skipping_of_not_isBlank p false hlines] at hpasses
      exact (passes_skipping_iff.mp hpasses).forest_eq log''

end Parser

end ExprForest

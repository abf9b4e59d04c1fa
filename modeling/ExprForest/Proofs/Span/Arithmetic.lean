import ExprForest.ParseError.Basic
import ExprForest.Proofs.Span.Words
import ExprForest.Proofs.Text.Columns

namespace ExprForest

/-!
# The arithmetic of spans

What the numbers of a span tell, whatever bytes of a line it is made from, and what moving it adds to them.

* `Span.lastColumnOf_eq_columnAt_prev` — the last column is that of the last character of a stretch;
* `Span.Delimits` — the numbers of a span fit two bytes of a line, and count characters where these stand
  between characters;
* `Span.delimits_cover` — so they do for any two bytes, inside a character or behind the line as well;
* `Span.shift_shift`, `ParseError.inBuffer_inBuffer` — moving twice is moving once;
* `Span.cover_and_shift_coherent` — put together.
-/

namespace Span

variable {line : String} {p q : line.Pos} {s : Span} {start stop m n a b bound : Nat}

/-! ### Columns of a stretch -/

/-- The last column of a stretch between two positions is the number of characters up to its end. -/
theorem lastColumnOf_offset (p q : line.Pos) :
    lastColumnOf line p.offset.byteIdx q.offset.byteIdx =
      (line.extract line.startPos q).length := by
  simp only [lastColumnOf, Text.charsWithin?_offset]

/-- The last column of a stretch between two positions is the column at which its last character starts. -/
theorem lastColumnOf_eq_columnAt_prev (h : p < q) :
    lastColumnOf line p.offset.byteIdx q.offset.byteIdx =
      Text.columnAt line (q.prev (String.Pos.ne_startPos_of_lt h)).offset.byteIdx := by
  have hq := String.Pos.ne_startPos_of_lt h
  -- the last character stands between the position before the end and the end
  have hend := (Text.splits_extract q).eq_left (q.splits_prev_right hq)
  have hlast := (Text.splits_extract (q.prev hq)).eq_left (q.splits_prev hq)
  rw [lastColumnOf_offset, Text.columnAt_offset, hend, hlast, String.length_append,
    String.length_singleton]

/-- Either both bytes are positions of the line, or the last column is the first one. -/
theorem lastColumnOf_cases (line : String) (start stop : Nat) :
    (∃ p q : line.Pos, p.offset.byteIdx = start ∧ q.offset.byteIdx = stop) ∨
      lastColumnOf line start stop = Text.columnAt line start := by
  cases hstart : Text.charsWithin? line start with
  | none => exact .inr (by simp only [lastColumnOf, hstart])
  | some i =>
    cases hstop : Text.charsWithin? line stop with
    | none => exact .inr (by simp only [lastColumnOf, hstart, hstop])
    | some j =>
      obtain ⟨p, hp, -⟩ := Text.charsWithin?_eq_some_iff.mp hstart
      obtain ⟨q, hq, -⟩ := Text.charsWithin?_eq_some_iff.mp hstop
      exact .inl ⟨p, q, hp, hq⟩

/-- The last column is not before the first one. -/
theorem columnAt_le_lastColumnOf (h : start < stop) :
    Text.columnAt line start ≤ lastColumnOf line start stop := by
  rcases lastColumnOf_cases line start stop with ⟨p, q, rfl, rfl⟩ | hfirst
  · have hpos : p < q := h
    have hinside := Text.length_extract_pos hpos
    have hsum := Text.length_extract_add (String.Pos.le_of_lt hpos)
    rw [Text.columnAt_offset, lastColumnOf_offset]
    omega
  · exact Nat.le_of_eq hfirst.symm

/-- The last column is no further on than behind the bytes of the line. -/
theorem lastColumnOf_le (line : String) (start stop : Nat) :
    lastColumnOf line start stop ≤ line.utf8ByteSize + 1 := by
  rcases lastColumnOf_cases line start stop with ⟨p, q, rfl, rfl⟩ | hfirst
  · rw [lastColumnOf_offset]
    exact Nat.le_succ_of_le (Text.length_extract_le q)
  · rw [hfirst]
    exact Text.columnAt_le line start

/-! ### Spans of a line -/

/-- Whether the numbers of a span fit the bytes from `start` up to `stop` of a line, which may stand inside
    a character or behind the line. -/
structure Delimits (s : Span) (line : String) (start stop : Nat) : Prop where
  firstLine_eq : s.firstLine = 1
  lastLine_eq : s.lastLine = 1
  offset_eq : s.offset = start
  length_eq : s.length = if start < stop then stop - start else 0
  one_le_firstColumn : 1 ≤ s.firstColumn
  firstColumn_le_lastColumn : s.firstColumn ≤ s.lastColumn
  lastColumn_le : s.lastColumn ≤ line.utf8ByteSize + 1
  /-- Between two positions of the line the columns count its characters. -/
  counts : ∀ p q : line.Pos, p.offset.byteIdx = start → q.offset.byteIdx = stop → p < q →
    s.lastColumn - s.firstColumn + 1 = (line.extract p q).length ∧
      s.firstColumn - 1 = (line.extract line.startPos p).length
  /-- There the last column is the one at which the last character starts. -/
  lastColumn_eq : ∀ p q : line.Pos, p.offset.byteIdx = start → q.offset.byteIdx = stop →
    ∀ h : p < q, s.lastColumn =
      Text.columnAt line (q.prev (String.Pos.ne_startPos_of_lt h)).offset.byteIdx

/-- The empty span at a byte fits an end that is not behind it. -/
theorem delimits_point (line : String) (h : stop ≤ start) :
    (point line start).Delimits line start stop := by
  have hpos : 1 ≤ Text.columnAt line start := Nat.le_add_left 1 _
  -- nothing stands between the two bytes
  have hnot : ∀ p q : line.Pos, p.offset.byteIdx = start → q.offset.byteIdx = stop → ¬p < q := by
    rintro p q rfl rfl hlt
    exact Nat.not_lt.mpr h hlt
  exact ⟨rfl, rfl, rfl, (if_neg (Nat.not_lt.mpr h)).symm, hpos, Nat.le_refl _,
    Text.columnAt_le line start, fun p q hp hq hlt => absurd hlt (hnot p q hp hq),
    fun p q hp hq hlt => absurd hlt (hnot p q hp hq)⟩

/-- **Spans of a line.**  A span over any two bytes of a line delimits what stands between them. -/
theorem delimits_cover (line : String) (start stop : Nat) :
    (cover line start stop).Delimits line start stop := by
  by_cases h : stop ≤ start
  · rw [cover, if_pos h]
    exact delimits_point line h
  · have hlt : start < stop := Nat.lt_of_not_le h
    have hpos : 1 ≤ Text.columnAt line start := Nat.le_add_left 1 _
    rw [cover, if_neg h]
    refine ⟨rfl, rfl, rfl, (if_pos hlt).symm, hpos, columnAt_le_lastColumnOf hlt,
      lastColumnOf_le line start stop, ?_, ?_⟩
    · rintro p q rfl rfl hpq
      have hinside := Text.length_extract_pos hpq
      have hsum := Text.length_extract_add (String.Pos.le_of_lt hpq)
      simp only [lastColumnOf_offset, Text.columnAt_offset]
      omega
    · rintro p q rfl rfl hpq
      exact lastColumnOf_eq_columnAt_prev hpq

-- byte 3 stands inside the second of two letters, so that the column counts bytes
example : cover "éé" 3 4 = ⟨1, 4, 1, 4, 3, 1⟩ := by decide

/-! ### Moving spans -/

/-- Moving twice is moving once, by the lines before both and the bytes before both. -/
theorem shift_shift (hm : 1 ≤ m) (hn : 1 ≤ n) :
    (s.shift m a).shift n b = s.shift (m + n - 1) (a + b) := by
  have hrows : ∀ row : Nat, row + (m - 1) + (n - 1) = row + (m + n - 1 - 1) := by
    intro row
    omega
  simp only [shift, hrows, Nat.add_assoc]

end Span

/-- An error moved into a buffer and from there into a buffer around it is the error moved into the outer
    buffer at once. -/
theorem ParseError.inBuffer_inBuffer {m n : Nat} (hm : 1 ≤ m) (hn : 1 ≤ n) (e : ParseError)
    (a b : Nat) (inner outer : String) :
    (e.inBuffer m a inner).inBuffer n b outer = e.inBuffer (m + n - 1) (a + b) outer := by
  cases e with
  | syntaxFailure message span source label => simp only [inBuffer, Span.shift_shift hm hn]
  | tokenFailure lexeme span source label => simp only [inBuffer, Span.shift_shift hm hn]
  | _ => rfl

/-! ### Both together -/

namespace Span

/-- **Coherence.**  A span over any two bytes of a line delimits what stands between them, be they inside a
    character or behind the line.  Moving a span to line `m` and byte `a`, and then to line `n` and byte
    `b`, is moving it once to line `m + n - 1` and byte `a + b`; columns and length stay, and on the way no
    number is greater than in the end.  So it is with errors. -/
theorem cover_and_shift_coherent (line : String) (start stop : Nat) :
    (cover line start stop).Delimits line start stop ∧
      ∀ m n a b : Nat, 1 ≤ m → 1 ≤ n →
        (∀ s : Span, (s.shift m a).shift n b = s.shift (m + n - 1) (a + b) ∧
          ((s.shift m a).shift n b).firstColumn = s.firstColumn ∧
          ((s.shift m a).shift n b).lastColumn = s.lastColumn ∧
          ((s.shift m a).shift n b).length = s.length ∧
          ∀ bound, ((s.shift m a).shift n b).Below bound → (s.shift m a).Below bound) ∧
        ∀ (e : ParseError) (inner outer : String),
          (e.inBuffer m a inner).inBuffer n b outer =
            e.inBuffer (m + n - 1) (a + b) outer := by
  refine ⟨delimits_cover line start stop, fun m n a b hm hn => ⟨fun s => ?_, fun e inner outer => ?_⟩⟩
  · exact ⟨shift_shift hm hn, rfl, rfl, rfl, fun bound h => h.of_shift⟩
  · exact ParseError.inBuffer_inBuffer hm hn e a b inner outer

/-- Four characters of five bytes at the start of the second line of a part, which starts with the third line
    of a buffer. -/
theorem cover_and_shift_coherent_accented :
    (1 ≤ 2 ∧ 1 ≤ 3) ∧ cover "é + $" 0 5 = ⟨1, 1, 1, 4, 0, 5⟩ ∧
      ("é + $".extract ("é + $".pos ⟨0⟩ (by decide)) ("é + $".pos ⟨5⟩ (by decide))).length = 4 ∧
      ((cover "é + $" 0 5).shift 2 7).shift 3 10 = ⟨4, 1, 4, 4, 17, 5⟩ := by
  have hcoherent := cover_and_shift_coherent "é + $" 0 5
  have hcounts := hcoherent.1.counts ("é + $".pos ⟨0⟩ (by decide)) ("é + $".pos ⟨5⟩ (by decide))
    rfl rfl (by decide)
  have hmoved := (hcoherent.2 2 3 7 10 (by decide) (by decide)).1 (cover "é + $" 0 5)
  exact ⟨by decide, by decide, hcounts.1.symm.trans (by decide), hmoved.1.trans (by decide)⟩

end Span

end ExprForest

import ExprForest.Span.Basic
import Mathlib

namespace ExprForest

/-!
# Places in a text

A place is told by the characters before it; bytes, rows and columns are counted on them.

* `Text.byteLength_append`, `Text.columnAt_byteLength` — bytes of texts put together, and the column at a
  byte between two characters;
* `Text.lastLine`, `Text.row`, `Text.column` — the line that a place stands in and where it stands there,
  and `Text.rowsBefore` — what comes before that line;
* `Span.Marks` — a span marks some characters behind others;
* `Span.marks_cover`, `Span.Marks.shift` — a span over characters of a line marks them, and still does in
  a buffer around the line.
-/

namespace Text

variable {cs ds before after : List Char}

/-! ### Bytes -/

theorem byteLength_eq_sum (cs : List Char) : byteLength cs = (cs.map Char.utf8Size).sum := by
  have hfoldl : ∀ n, cs.foldl (fun n c => n + c.utf8Size) n = n + (cs.map Char.utf8Size).sum := by
    induction cs with
    | nil => simp
    | cons c cs ih =>
      intro n
      rw [List.foldl_cons, ih, List.map_cons, List.sum_cons, Nat.add_assoc]
  rw [byteLength, hfoldl, Nat.zero_add]

@[simp] theorem byteLength_nil : byteLength [] = 0 := rfl

@[simp] theorem byteLength_cons (c : Char) (cs : List Char) :
    byteLength (c :: cs) = c.utf8Size + byteLength cs := by
  simp [byteLength_eq_sum]

@[simp] theorem byteLength_append (cs ds : List Char) :
    byteLength (cs ++ ds) = byteLength cs + byteLength ds := by
  simp [byteLength_eq_sum]

/-- The bytes of a string are those of its characters. -/
theorem byteLength_toList (text : String) : byteLength text.toList = text.utf8ByteSize := by
  have hlen : ∀ cs : List Char, String.utf8Len cs = byteLength cs := by
    intro cs
    induction cs with
    | nil => rfl
    | cons c cs ih =>
      rw [String.utf8Len_cons, ih, byteLength_cons]
      exact Nat.add_comm _ _
  rw [← hlen, ← String.utf8ByteSize_ofList, String.ofList_toList]

/-- Only the empty text has no bytes. -/
theorem byteLength_pos (h : cs ≠ []) : 0 < byteLength cs := by
  obtain ⟨c, cs, rfl⟩ := List.exists_cons_of_ne_nil h
  have := c.utf8Size_pos
  rw [byteLength_cons]
  omega

/-! ### Columns at bytes -/

theorem charsFrom?_append (seen : Nat) (before after : List Char) :
    charsFrom? seen (before ++ after) (byteLength before) = some (seen + before.length) := by
  induction before generalizing seen with
  | nil => simp [charsFrom?]
  | cons c before ih =>
    -- a character has at least one byte, so the count goes on behind it
    obtain ⟨n, hn⟩ : ∃ n, byteLength (c :: before) = n + 1 :=
      Nat.exists_eq_add_one.mpr (byteLength_pos (List.cons_ne_nil c before))
    have hsize : byteLength (c :: before) = c.utf8Size + byteLength before := byteLength_cons c before
    have hle : c.utf8Size ≤ n + 1 := by omega
    have hrest : n + 1 - c.utf8Size = byteLength before := by omega
    rw [List.cons_append, hn, charsFrom?, if_pos hle, hrest, ih, List.length_cons]
    congr 1
    omega

/-- As many characters lie before a place as stand before it. -/
theorem charsWithin?_byteLength {text : String} (h : text.toList = before ++ after) :
    charsWithin? text (byteLength before) = some before.length := by
  rw [charsWithin?, h, charsFrom?_append, Nat.zero_add]

/-- The column at a place of a line. -/
theorem columnAt_byteLength {line : String} (h : line.toList = before ++ after) :
    columnAt line (byteLength before) = before.length + 1 := by
  have hinside : min (byteLength before) line.utf8ByteSize = byteLength before := by
    rw [← byteLength_toList, h, byteLength_append]
    omega
  simp only [columnAt, hinside, charsWithin?_byteLength h, Option.getD_some]

/-- The character that starts at a place of a line. -/
theorem charAt?_byteLength {line : String} (h : line.toList = before ++ after) :
    charAt? line (byteLength before) = after.head? := by
  rw [charAt?, h]
  clear h
  induction before with
  | nil => cases after <;> rfl
  | cons c before ih =>
    obtain ⟨n, hn⟩ : ∃ n, byteLength (c :: before) = n + 1 :=
      Nat.exists_eq_add_one.mpr (byteLength_pos (List.cons_ne_nil c before))
    have hsize : byteLength (c :: before) = c.utf8Size + byteLength before := byteLength_cons c before
    have hle : c.utf8Size ≤ n + 1 := by omega
    have hrest : n + 1 - c.utf8Size = byteLength before := by omega
    rw [List.cons_append, hn, charFrom?, if_pos hle, hrest, ih]

/-! ### Rows and columns -/

/-- The line that a text ends in: what stands behind its last line feed, or all of it. -/
def lastLine (before : List Char) : List Char :=
  (before.reverse.takeWhile (· ≠ '\n')).reverse

/-- The row of a place, told by the characters before it. -/
def row (before : List Char) : Nat :=
  1 + before.count '\n'

/-- The column of a place, told by the characters before it. -/
def column (before : List Char) : Nat :=
  1 + (lastLine before).length

@[simp] theorem lastLine_nil : lastLine [] = [] := rfl

/-- A line feed starts a line. -/
@[simp] theorem lastLine_lineFeed (cs : List Char) : lastLine (cs ++ ['\n']) = [] := by
  simp [lastLine]

/-- No line feed stands before the first one. -/
theorem not_mem_takeWhile (cs : List Char) : '\n' ∉ cs.takeWhile (· ≠ '\n') := by
  intro hmem
  have := List.mem_takeWhile_imp hmem
  simp at this

theorem not_mem_lastLine (before : List Char) : '\n' ∉ lastLine before := by
  rw [lastLine, List.mem_reverse]
  exact not_mem_takeWhile before.reverse

/-- A line goes on behind characters without a line feed. -/
theorem takeWhile_lineFeed_append (h : '\n' ∉ cs) (ds : List Char) :
    (cs ++ ds).takeWhile (· ≠ '\n') = cs ++ ds.takeWhile (· ≠ '\n') := by
  refine List.takeWhile_append_of_pos ?_
  intro c hc
  have hne : c ≠ '\n' := fun heq => h (heq ▸ hc)
  simpa using hne

/-- Behind a text, characters without a line feed go on with its last line. -/
theorem lastLine_append (h : '\n' ∉ ds) (cs : List Char) :
    lastLine (cs ++ ds) = lastLine cs ++ ds := by
  have hreverse : '\n' ∉ ds.reverse := by rwa [List.mem_reverse]
  rw [lastLine, List.reverse_append, takeWhile_lineFeed_append hreverse, List.reverse_append,
    List.reverse_reverse, lastLine]

/-- Characters without a line feed are a line. -/
theorem lastLine_eq_self (h : '\n' ∉ cs) : lastLine cs = cs := by
  have := lastLine_append h []
  rwa [lastLine_nil, List.nil_append] at this

/-- Characters without a line feed stay in the row. -/
theorem row_append (h : '\n' ∉ ds) (cs : List Char) : row (cs ++ ds) = row cs := by
  rw [row, row, List.count_append, List.count_eq_zero_of_not_mem h, Nat.add_zero]

/-- A line feed ends the row. -/
@[simp] theorem row_lineFeed (cs : List Char) : row (cs ++ ['\n']) = row cs + 1 := by
  rw [row, row, List.count_append, List.count_singleton_self, Nat.add_assoc]

/-- Characters without a line feed are in the first row. -/
theorem row_eq_one (h : '\n' ∉ cs) : row cs = 1 := by
  rw [row, List.count_eq_zero_of_not_mem h]

/-! ### The start of a line -/

/-- What stands before the line that a text ends in. -/
def rowsBefore (before : List Char) : List Char :=
  (before.reverse.dropWhile (· ≠ '\n')).reverse

theorem rowsBefore_append_lastLine (before : List Char) :
    rowsBefore before ++ lastLine before = before := by
  rw [rowsBefore, lastLine, ← List.reverse_append, List.takeWhile_append_dropWhile,
    List.reverse_reverse]

/-- The last line starts at the start of a row. -/
theorem lastLine_rowsBefore (before : List Char) : lastLine (rowsBefore before) = [] := by
  have h := lastLine_append (not_mem_lastLine before) (rowsBefore before)
  rw [rowsBefore_append_lastLine] at h
  exact List.append_left_eq_self.mp h.symm

theorem row_rowsBefore (before : List Char) : row (rowsBefore before) = row before := by
  conv_rhs => rw [← rowsBefore_append_lastLine before]
  rw [row_append (not_mem_lastLine before)]

theorem byteLength_rowsBefore (before : List Char) :
    byteLength before = byteLength (rowsBefore before) + byteLength (lastLine before) := by
  conv_lhs => rw [← rowsBefore_append_lastLine before]
  rw [byteLength_append]

end Text

/-! ### Spans -/

namespace Span

open Text (byteLength row column)

variable {s : Span} {line : String} {pre before inside after : List Char}

/-- Whether a span marks the characters `inside` behind the characters `before`: its bytes are theirs, its
    first row and column those where they start, and its last ones those of the last of them.  Where
    nothing is marked, first and last place are the same. -/
structure Marks (s : Span) (before inside : List Char) : Prop where
  offset_eq : s.offset = byteLength before
  length_eq : s.length = byteLength inside
  firstLine_eq : s.firstLine = row before
  firstColumn_eq : s.firstColumn = column before
  lastLine_eq : s.lastLine = row before
  lastColumn_eq : s.lastColumn = column (before ++ inside.dropLast)

/-- The last column of a stretch of a line is the number of characters up to its end. -/
theorem lastColumnOf_byteLength (h : line.toList = before ++ (inside ++ after)) :
    lastColumnOf line (byteLength before) (byteLength before + byteLength inside) =
      before.length + inside.length := by
  have hstop : line.toList = (before ++ inside) ++ after := by rw [h, List.append_assoc]
  have hstart := Text.charsWithin?_byteLength h
  have hend := Text.charsWithin?_byteLength hstop
  rw [Text.byteLength_append, List.length_append] at hend
  simp only [lastColumnOf, hstart, hend]

/-- A span over characters of a line marks them. -/
theorem marks_cover (h : line.toList = before ++ (inside ++ after)) (hline : '\n' ∉ line.toList) :
    (cover line (byteLength before) (byteLength before + byteLength inside)).Marks before inside := by
  have hmem : '\n' ∉ before ++ inside := by
    rw [h, ← List.append_assoc] at hline
    exact fun hmem => hline (List.mem_append_left _ hmem)
  have hbefore : '\n' ∉ before := fun hmem' => hmem (List.mem_append_left _ hmem')
  have hinside : '\n' ∉ inside := fun hmem' => hmem (List.mem_append_right _ hmem')
  have hrow := Text.row_eq_one hbefore
  have hcolumn : Text.columnAt line (byteLength before) = column before := by
    rw [Text.columnAt_byteLength h, column, Text.lastLine_eq_self hbefore, Nat.add_comm]
  by_cases hnil : inside = []
  · -- the empty span
    subst hnil
    rw [Text.byteLength_nil, Nat.add_zero, cover, if_pos (Nat.le_refl _), point]
    refine ⟨rfl, rfl, hrow.symm, hcolumn, hrow.symm, ?_⟩
    rw [List.dropLast_nil, List.append_nil]
    exact hcolumn
  · have hpos := Text.byteLength_pos hnil
    have hlt : ¬byteLength before + byteLength inside ≤ byteLength before := by omega
    rw [cover, if_neg hlt, lastColumnOf_byteLength h]
    refine ⟨rfl, Nat.add_sub_cancel_left _ _, hrow.symm, hcolumn, hrow.symm, ?_⟩
    -- the last character stands behind all the others of the stretch
    have hlast : '\n' ∉ inside.dropLast := fun hmem' => hinside (List.dropLast_subset _ hmem')
    have hlength := List.length_pos_iff.mpr hnil
    rw [column, Text.lastLine_append hlast, Text.lastLine_eq_self hbefore, List.length_append,
      List.length_dropLast]
    show before.length + inside.length = _
    omega

/-- A span of a line still marks its characters in a buffer, if it is moved to where the line starts. -/
theorem Marks.shift (h : s.Marks before inside) (hpre : Text.lastLine pre = [])
    (hbefore : '\n' ∉ before) (hinside : '\n' ∉ inside) :
    (s.shift (row pre) (byteLength pre)).Marks (pre ++ before) inside := by
  have hcolumn : ∀ cs : List Char, '\n' ∉ cs → column (pre ++ cs) = column cs := by
    intro cs hcs
    rw [column, column, Text.lastLine_append hcs, hpre, List.nil_append, Text.lastLine_eq_self hcs]
  have hone := Text.row_eq_one hbefore
  have hrow : 1 + (row pre - 1) = row (pre ++ before) := by
    rw [Text.row_append hbefore, row]
    omega
  have hlast : '\n' ∉ before ++ inside.dropLast := by
    intro hmem
    rcases List.mem_append.mp hmem with hmem | hmem
    · exact hbefore hmem
    · exact hinside (List.dropLast_subset _ hmem)
  refine ⟨?_, h.length_eq, ?_, ?_, ?_, ?_⟩
  · show s.offset + byteLength pre = _
    rw [h.offset_eq, Text.byteLength_append, Nat.add_comm]
  · show s.firstLine + (row pre - 1) = _
    rw [h.firstLine_eq, hone, hrow]
  · show s.firstColumn = _
    rw [h.firstColumn_eq, hcolumn before hbefore]
  · show s.lastLine + (row pre - 1) = _
    rw [h.lastLine_eq, hone, hrow]
  · show s.lastColumn = _
    rw [h.lastColumn_eq, List.append_assoc, hcolumn _ hlast]

end Span

end ExprForest

import ExprForest.Proofs.Text.Position

namespace ExprForest.Text

/-!
# Columns at bytes

The bytes that stand between two characters of a line are the library's positions in it, and columns are
counted at these.

* `splits_extract`, `length_extract_add` — a line cut at a position, and the characters of stretches put
  together;
* `charsWithin?_eq_some_iff` — characters are counted up to a byte exactly if it is a position, and they are
  those before it;
* `columnAt_offset`, `columnAt_le` — the column at a position, and how far columns go at any byte.
-/

variable {line : String} {p q : line.Pos} {n k : Nat}

/-! ### Stretches of a line -/

/-- A position cuts a line into what stands before it and what stands behind it. -/
theorem splits_extract (p : line.Pos) :
    p.Splits (line.extract line.startPos p) (line.extract p line.endPos) := by
  have hbefore : line.extract line.startPos p = (line.sliceTo p).copy := by
    simp [← String.toByteArray_inj, String.Slice.toByteArray_copy]
  have hbehind : line.extract p line.endPos = (line.sliceFrom p).copy := by
    simp [← String.toByteArray_inj, String.Slice.toByteArray_copy]
  rw [hbefore, hbehind]
  exact p.splits

/-- A position is told by the bytes before it. -/
theorem utf8ByteSize_extract_start (p : line.Pos) :
    (line.extract line.startPos p).utf8ByteSize = p.offset.byteIdx := by
  rw [(splits_extract p).offset_eq_rawEndPos, String.byteIdx_rawEndPos]

/-- The stretch up to a position and the one behind it make up the stretch to the later one. -/
theorem extract_append_extract (h : p ≤ q) :
    line.extract line.startPos p ++ line.extract p q = line.extract line.startPos q := by
  have hle : p.offset.byteIdx ≤ q.offset.byteIdx := h
  rw [← String.toByteArray_inj, String.toByteArray_append, String.toByteArray_extract,
    String.toByteArray_extract, String.toByteArray_extract]
  exact (ByteArray.extract_eq_extract_append_extract _ (Nat.zero_le _) hle).symm

theorem length_extract_add (h : p ≤ q) :
    (line.extract line.startPos p).length + (line.extract p q).length =
      (line.extract line.startPos q).length := by
  rw [← extract_append_extract h, String.length_append]

/-- Between two different positions there is a character. -/
theorem length_extract_pos (h : p < q) : 0 < (line.extract p q).length := by
  have hlt : p.offset.byteIdx < q.offset.byteIdx := h
  have hbytes := congrArg String.utf8ByteSize (extract_append_extract (String.Pos.le_of_lt h))
  rw [String.utf8ByteSize_append, utf8ByteSize_extract_start, utf8ByteSize_extract_start] at hbytes
  refine Nat.pos_of_ne_zero fun hzero => ?_
  rw [String.length_eq_zero_iff.mp hzero, String.utf8ByteSize_empty] at hbytes
  omega

/-! ### Counting -/

/-- Characters are counted up to a byte between two of them only. -/
theorem exists_of_charsFrom?_eq_some {seen : Nat} {cs : List Char}
    (h : charsFrom? seen cs n = some k) :
    ∃ before after, cs = before ++ after ∧ byteLength before = n ∧ seen + before.length = k := by
  fun_induction charsFrom? seen cs n with
  | case1 cs seen => exact ⟨[], cs, rfl, rfl, Option.some.inj h⟩
  | case2 => cases h
  | case3 seen c cs n hle ih =>
    obtain ⟨before, after, rfl, hbytes, hlength⟩ := ih h
    refine ⟨c :: before, after, rfl, ?_, ?_⟩
    · rw [byteLength_cons]
      omega
    · rw [List.length_cons]
      omega
  | case4 => cases h

/-- Up to a position, the characters before it are counted. -/
theorem charsWithin?_offset (p : line.Pos) :
    charsWithin? line p.offset.byteIdx = some (line.extract line.startPos p).length := by
  have hline := congrArg String.toList (splits_extract p).eq_append
  rw [String.toList_append] at hline
  have hcount := charsWithin?_byteLength hline
  rwa [byteLength_toList, utf8ByteSize_extract_start, String.length_toList] at hcount

/-- **Counting.**  Characters are counted up to a byte exactly if it is a position of the line, and then they
    are those before it. -/
theorem charsWithin?_eq_some_iff : charsWithin? line n = some k ↔
    ∃ p : line.Pos, p.offset.byteIdx = n ∧ (line.extract line.startPos p).length = k := by
  constructor
  · intro h
    obtain ⟨before, after, hline, hbytes, -⟩ := exists_of_charsFrom?_eq_some h
    have hvalid : String.Pos.Raw.IsValid line ⟨n⟩ := by
      rw [String.Pos.Raw.isValid_iff_exists_append]
      refine ⟨String.ofList before, String.ofList after, ?_, ?_⟩
      · rw [← String.ofList_append, ← hline, String.ofList_toList]
      · rw [String.Pos.Raw.ext_iff, String.byteIdx_rawEndPos, ← byteLength_toList,
          String.toList_ofList, hbytes]
    have hcount := charsWithin?_offset (line.pos ⟨n⟩ hvalid)
    exact ⟨line.pos ⟨n⟩ hvalid, rfl, Option.some.inj (hcount.symm.trans h)⟩
  · rintro ⟨p, rfl, rfl⟩
    exact charsWithin?_offset p

/-! ### Columns -/

/-- The column at a position is behind the characters before it. -/
theorem columnAt_offset (p : line.Pos) :
    columnAt line p.offset.byteIdx = (line.extract line.startPos p).length + 1 := by
  have hle : p.offset.byteIdx ≤ line.utf8ByteSize := p.isValid.le_utf8ByteSize
  simp only [columnAt, Nat.min_eq_left hle, charsWithin?_offset, Option.getD_some]

/-- A text has no more characters than bytes. -/
theorem length_le_byteLength (cs : List Char) : cs.length ≤ byteLength cs := by
  induction cs with
  | nil => exact Nat.le_refl 0
  | cons c cs ih =>
    have hsize := c.utf8Size_pos
    rw [List.length_cons, byteLength_cons]
    omega

/-- No more characters stand before a position than the line has bytes. -/
theorem length_extract_le (p : line.Pos) :
    (line.extract line.startPos p).length ≤ line.utf8ByteSize := by
  calc (line.extract line.startPos p).length
      ≤ byteLength (line.extract line.startPos p).toList := length_le_byteLength _
    _ = p.offset.byteIdx := by rw [byteLength_toList, utf8ByteSize_extract_start]
    _ ≤ line.utf8ByteSize := p.isValid.le_utf8ByteSize

/-- At no byte, be it inside a character or behind the line, a column is further on than behind the bytes of
    the line. -/
theorem columnAt_le (line : String) (n : Nat) : columnAt line n ≤ line.utf8ByteSize + 1 := by
  cases hcount : charsWithin? line (min n line.utf8ByteSize) with
  | none =>
    simp only [columnAt, hcount, Option.getD_none]
    omega
  | some k =>
    obtain ⟨p, -, rfl⟩ := charsWithin?_eq_some_iff.mp hcount
    have hle := length_extract_le p
    simp only [columnAt, hcount, Option.getD_some]
    omega

end ExprForest.Text

import ExprForest.Proofs.Forest.Rows

namespace ExprForest

/-!
# Lines partition their buffer

* `Text.IsRows.length_eq` — a text has a row for each line feed, and one more if it goes on behind the last;
* `Line.CutOff` — what a row has behind the text of its line;
* `Line.ofRows_eq_append` — where a line of some rows stands among them;
* `Line.split_partitions` — the lines of a buffer, and what is cut off behind them, are all of the buffer in
  its order.
-/

open Text (byteLength IsRows rows)

/-! ### Rows -/

namespace Text

variable {rs : List (List Char)}

/-- Rows count the line feeds of their text, and its end if it has none there. -/
theorem IsRows.length_eq (h : IsRows rs) :
    rs.length = rs.flatten.count '\n' +
      if rs.flatten = [] ∨ rs.flatten.getLast? = some '\n' then 0 else 1 := by
  induction h with
  | nil => rfl
  | @last body hne hbody =>
    have hlast : body.getLast? ≠ some '\n' := fun hlast => hbody (List.mem_of_getLast? hlast)
    rw [List.flatten_singleton, List.count_eq_zero_of_not_mem hbody, if_neg (by simp [hne, hlast])]
    rfl
  | @row body rs hbody _ ih =>
    have hcount : ((body ++ ['\n']) :: rs).flatten.count '\n' = rs.flatten.count '\n' + 1 := by
      rw [List.flatten_cons, List.count_append, List.count_append,
        List.count_eq_zero_of_not_mem hbody, List.count_singleton_self]
      omega
    -- the last character is that of the rows behind, or the line feed if there are none
    have hend : (((body ++ ['\n']) :: rs).flatten = [] ∨
        ((body ++ ['\n']) :: rs).flatten.getLast? = some '\n') ↔
          rs.flatten = [] ∨ rs.flatten.getLast? = some '\n' := by
      rw [List.flatten_cons, List.getLast?_append]
      by_cases hrest : rs.flatten = []
      · simp [hrest]
      · obtain ⟨c, hc⟩ := Option.ne_none_iff_exists'.mp (mt List.getLast?_eq_none_iff.mp hrest)
        simp [hrest, hc]
    rw [List.length_cons, ih, hcount, if_congr hend rfl rfl]
    omega

end Text

/-! ### Lines -/

namespace Line

variable {rs back : List (List Char)} {row : List Char} {line : Line} {before after : List Line}
  {number offset : Nat}

/-- What is cut off behind the text of a line, up to the rest of the buffer: a line feed, which may be
    missing at the end of the buffer only, and one carriage return before it, which is always cut off if it
    is there. -/
inductive CutOff (text : List Char) : List Char → List Char → Prop where
  | lineFeed {rest : List Char} :
      text.getLast? ≠ some '\r' →
      CutOff text ['\n'] rest
  | returnLineFeed {rest : List Char} :
      CutOff text ['\r', '\n'] rest
  | nothing :
      text ≠ [] → text.getLast? ≠ some '\r' →
      CutOff text [] []
  | carriageReturn :
      CutOff text ['\r'] []

/-- A row is the text of its line with what is cut off behind it. -/
theorem exists_cutOff (h : IsRows (row :: back)) :
    '\n' ∉ textOf row ∧ ∃ ending, row = textOf row ++ ending ∧
      CutOff (textOf row) ending back.flatten := by
  have hkept : ∀ {body : List Char}, '\n' ∉ body → '\n' ∉ dropReturn body := by
    intro body hbody hmem
    obtain ⟨ending, hending⟩ := exists_dropReturn_append body
    exact hbody (hending ▸ List.mem_append_left ending hmem)
  cases h with
  | last hne hbody =>
    rw [textOf_body hbody]
    refine ⟨hkept hbody, ?_⟩
    rcases dropReturn_cases row with hreturn | ⟨hself, hlast⟩
    · exact ⟨['\r'], hreturn, .carriageReturn⟩
    · rw [hself]
      exact ⟨[], (List.append_nil row).symm, .nothing hne hlast⟩
  | @row body _ hbody _ =>
    rw [textOf_row hbody]
    refine ⟨hkept hbody, ?_⟩
    rcases dropReturn_cases body with hreturn | ⟨hself, hlast⟩
    · refine ⟨['\r', '\n'], ?_, .returnLineFeed⟩
      conv_lhs => rw [hreturn]
      rw [List.append_assoc, List.singleton_append]
    · rw [hself]
      exact ⟨['\n'], rfl, .lineFeed hlast⟩

theorem map_number_ofRows (rs : List (List Char)) :
    (ofRows number offset rs).map Line.number = List.range' number rs.length := by
  induction rs generalizing number offset with
  | nil => rfl
  | cons row rs ih => rw [ofRows, List.map_cons, ih, List.length_cons, List.range'_succ]

/-- A line of some rows starts behind the bytes of the rows before its own. -/
theorem ofRows_eq_append (h : ofRows number offset rs = before ++ line :: after) :
    ∃ front row back, rs = front ++ row :: back ∧ before.length = front.length ∧
      line = ⟨number + front.length, offset + byteLength front.flatten, String.ofList (textOf row)⟩ ∧
      after = ofRows (number + front.length + 1) (offset + byteLength front.flatten + byteLength row)
        back := by
  induction rs generalizing number offset before with
  | nil => simp [ofRows] at h
  | cons row rs ih =>
    rw [ofRows] at h
    cases before with
    | nil =>
      obtain ⟨rfl, rfl⟩ := List.cons.inj h
      exact ⟨[], row, rs, rfl, rfl, rfl, rfl⟩
    | cons first before =>
      obtain ⟨-, h⟩ := List.cons.inj h
      obtain ⟨front, row', back, rfl, hlength, hline, hafter⟩ := ih h
      have hnumber : number + (row :: front).length = number + 1 + front.length := by
        rw [List.length_cons]
        omega
      have hoffset : offset + byteLength (row :: front).flatten =
          offset + byteLength row + byteLength front.flatten := by
        rw [List.flatten_cons, Text.byteLength_append, Nat.add_assoc]
      refine ⟨row :: front, row', back, rfl, ?_, ?_, ?_⟩
      · rw [List.length_cons, List.length_cons, hlength]
      · rw [hnumber, hoffset, hline]
      · rw [hnumber, hoffset, hafter]

/-- **Lines partition the buffer.**  The lines of a buffer are numbered from one, and there is one for each
    line feed and one for what stands behind the last, if that is something.  The text of a line holds no
    line feed and stands in the buffer between the bytes that its offset and its length tell.  The first
    line starts at the start of the buffer, each further one right behind what is cut off from the line
    before it, and behind what is cut off from the last line the buffer ends. -/
theorem split_partitions (buffer : String) :
    (split buffer).map Line.number = List.range' 1 (split buffer).length ∧
      (split buffer).length = buffer.toList.count '\n' +
        (if buffer.toList = [] ∨ buffer.toList.getLast? = some '\n' then 0 else 1) ∧
      ∀ before line after, split buffer = before ++ line :: after →
        '\n' ∉ line.text.toList ∧
          Text.slice? buffer line.offset (line.offset + line.text.utf8ByteSize) =
            some line.text.toList ∧
          ∃ front ending rest,
            buffer.toList = front ++ (line.text.toList ++ (ending ++ rest)) ∧
              CutOff line.text.toList ending rest ∧
              line.offset = byteLength front ∧ (before = [] → front = []) ∧
              match after with
              | [] => rest = []
              | next :: _ => next.offset = byteLength (front ++ (line.text.toList ++ ending)) := by
  have hrows := Text.isRows_rows buffer.toList
  have hflatten := Text.flatten_rows buffer.toList
  have hlength : (split buffer).length = (rows buffer.toList).length := by
    rw [← List.length_map Line.number, split_eq_ofRows, map_number_ofRows, List.length_range']
  refine ⟨?_, ?_, ?_⟩
  · rw [hlength, split_eq_ofRows, map_number_ofRows]
  · have hcount := hrows.length_eq
    rw [hflatten] at hcount
    rw [hlength, hcount]
  · intro before line after hsplit
    rw [split_eq_ofRows] at hsplit
    obtain ⟨front, row, back, hcut, hbefore, rfl, rfl⟩ := ofRows_eq_append hsplit
    rw [hcut] at hrows hflatten
    obtain ⟨hfeed, ending, hrow, hending⟩ := exists_cutOff hrows.of_append
    have hbuffer : buffer.toList = front.flatten ++ (textOf row ++ (ending ++ back.flatten)) := by
      rw [← hflatten, List.flatten_append, List.flatten_cons, ← List.append_assoc (textOf row), ← hrow]
    simp only [String.toList_ofList, Nat.zero_add]
    refine ⟨hfeed, ?_, front.flatten, ending, back.flatten, hbuffer, hending, rfl, ?_, ?_⟩
    · rw [← Text.byteLength_toList, String.toList_ofList]
      exact Text.slice?_byteLength hbuffer
    · rintro rfl
      rw [List.eq_nil_of_length_eq_zero hbefore.symm]
      rfl
    · cases back with
      | nil => rfl
      | cons next back =>
        show byteLength front.flatten + byteLength row = _
        rw [← hrow, Text.byteLength_append]

end Line

end ExprForest

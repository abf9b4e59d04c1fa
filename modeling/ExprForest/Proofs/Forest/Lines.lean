import ExprForest.Line
import ExprForest.Proofs.Text.Position

namespace ExprForest.Line

/-!
# Where the lines of a buffer stand

* `Line.StandsIn` — a line has the place in a buffer that its number and its offset tell, and no line
  feed;
* `Line.standsIn_of_mem_split` — so have all lines into which a buffer is split.
-/

open Text (byteLength row)

variable {buffer rest : List Char} {done : List Line} {line : Line} {number offset : Nat}

/-- Whether a line stands in a buffer where its number and offset tell: at the start of a row, and
    without a line feed. -/
def StandsIn (line : Line) (buffer : List Char) : Prop :=
  ∃ before behind, buffer = before ++ (line.text.toList ++ behind) ∧ Text.lastLine before = [] ∧
    line.number = row before ∧ line.offset = byteLength before ∧ '\n' ∉ line.text.toList

/-- Either a carriage return at the end is dropped, or there is none. -/
theorem dropReturn_cases (cs : List Char) :
    cs = dropReturn cs ++ ['\r'] ∨ dropReturn cs = cs ∧ cs.getLast? ≠ some '\r' := by
  rw [dropReturn]
  by_cases h : cs.getLast? = some '\r'
  · rw [if_pos h]
    exact .inl (List.dropLast_append_getLast? _ h).symm
  · rw [if_neg h]
    exact .inr ⟨rfl, h⟩

/-- What a line loses is a carriage return at its end. -/
theorem exists_dropReturn_append (cs : List Char) : ∃ ending, cs = dropReturn cs ++ ending := by
  rcases dropReturn_cases cs with hreturn | ⟨hself, -⟩
  · exact ⟨['\r'], hreturn⟩
  · exact ⟨[], by rw [hself, List.append_nil]⟩

/-- The first line feed stands behind all characters before it. -/
theorem eq_append_of_drop {feed : Char} {behind : List Char}
    (h : rest.drop (rest.takeWhile (· ≠ '\n')).length = feed :: behind) :
    rest = rest.takeWhile (· ≠ '\n') ++ '\n' :: behind := by
  have hsplit : rest.takeWhile (· ≠ '\n') ++ rest.dropWhile (· ≠ '\n') = rest :=
    List.takeWhile_append_dropWhile
  have hdrop : rest.dropWhile (· ≠ '\n') = feed :: behind := by
    rw [← h]
    conv_rhs => rw [← hsplit]
    rw [List.drop_left' (by rw [hsplit])]
  -- the line would go on with any other character
  have hfeed : feed = '\n' := by
    have hne : rest.dropWhile (· ≠ '\n') ≠ [] := by
      rw [hdrop]
      exact List.cons_ne_nil _ _
    have hhead := List.head_dropWhile_not (· ≠ '\n') hne
    simp only [hdrop, List.head_cons] at hhead
    simpa using hhead
  rw [hdrop, hfeed] at hsplit
  exact hsplit.symm

/-- The line up to the first line feed of the rest of a buffer stands in it. -/
theorem standsIn_takeWhile {before : List Char} (hlast : Text.lastLine before = []) :
    StandsIn ⟨row before, byteLength before,
        String.ofList (dropReturn (rest.takeWhile (· ≠ '\n')))⟩ (before ++ rest) := by
  obtain ⟨ending, hending⟩ := exists_dropReturn_append (rest.takeWhile (· ≠ '\n'))
  refine ⟨before, ending ++ rest.dropWhile (· ≠ '\n'), ?_, hlast, rfl, rfl, ?_⟩
  · rw [String.toList_ofList, ← List.append_assoc (dropReturn _), ← hending,
      List.takeWhile_append_dropWhile]
  · rw [String.toList_ofList]
    intro hmem
    refine Text.not_mem_takeWhile rest ?_
    rw [hending]
    exact List.mem_append_left _ hmem

/-- Splitting the rest of a buffer at the start of a row. -/
theorem standsIn_of_mem_splitFrom {before : List Char} (hbuffer : buffer = before ++ rest)
    (hlast : Text.lastLine before = []) (hnumber : number = row before)
    (hoffset : offset = byteLength before) (hdone : ∀ line ∈ done, line.StandsIn buffer) :
    ∀ line ∈ splitFrom done number offset rest, line.StandsIn buffer := by
  -- on the rest; `before` grows by each line and the line feed behind it
  fun_induction splitFrom done number offset rest generalizing before with
  | case1 done number offset => simpa using hdone
  | case2 done number offset c cs body line =>
    subst hbuffer hnumber hoffset
    have hline : line.StandsIn (before ++ c :: cs) := standsIn_takeWhile hlast
    intro l hl
    rcases List.mem_cons.mp (List.mem_reverse.mp hl) with rfl | hl
    · exact hline
    · exact hdone l hl
  | case3 done number offset c cs body line feed behind hbehind hlt =>
    rename_i ih
    subst hbuffer hnumber hoffset
    have hline : line.StandsIn (before ++ c :: cs) := standsIn_takeWhile hlast
    have hrest : c :: cs = body ++ '\n' :: behind := eq_append_of_drop hbehind
    have hrow : row (before ++ (body ++ ['\n'])) = row before + 1 := by
      rw [← List.append_assoc, Text.row_lineFeed, Text.row_append (Text.not_mem_takeWhile (c :: cs))]
    have hbytes : byteLength (before ++ (body ++ ['\n'])) =
        byteLength before + byteLength body + 1 := by
      rw [Text.byteLength_append, Text.byteLength_append, ← Nat.add_assoc]
      rfl
    refine @ih (before ++ (body ++ ['\n'])) ?_ ?_ hrow.symm hbytes.symm ?_
    · rw [hrest]
      simp
    · rw [← List.append_assoc]
      exact Text.lastLine_lineFeed _
    · intro l hl
      rcases List.mem_cons.mp hl with rfl | hl
      · exact hline
      · exact hdone l hl

/-- **Lines in their buffer.**  Every line of a buffer stands where its number and offset tell. -/
theorem standsIn_of_mem_split {buffer : String} (h : line ∈ split buffer) :
    line.StandsIn buffer.toList :=
  @standsIn_of_mem_splitFrom _ _ [] 1 0 [] rfl rfl rfl rfl (by simp) line h

end ExprForest.Line

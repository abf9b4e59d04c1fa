import ExprForest.Text.LineBreak

namespace ExprForest.Text

/-!
# Wrapping a text

A text is laid out in lines of at most a given width, each filled as far as possible.  Lines are broken
between words, behind hyphens inside words, and inside a part that is wider than a line.  Every character
takes one column; spaces at the end of a line are dropped and take none.

* `Fragment` — a part of a text that is not broken, with the number of spaces behind it;
* `hyphenated` — a word cut behind its hyphens;
* `chunks` — a part cut into pieces that fit a line;
* `wrap` — the lines of a text.  `length_of_mem_wrap` says that they fit.
-/

/-- A part of a text that is not broken, and how many spaces follow it. -/
structure Fragment where
  part : List Char
  spaces : Nat

/-- So many spaces. -/
def blanks (n : Nat) : List Char :=
  List.replicate n ' '

/-- Cuts the rest of a word behind each hyphen that stands between two letters or digits.  `part` holds the
    characters of the part that is being read, the last one first. -/
def hyphenatedFrom (done : List (List Char)) (part : List Char) : List Char → List (List Char)
  | [] => (part.reverse :: done).reverse
  | c :: cs =>
    let inside := part.head?.any Char.isAlphanum && cs.head?.any Char.isAlphanum
    if c = '-' ∧ inside then hyphenatedFrom ((c :: part).reverse :: done) [] cs
    else hyphenatedFrom done (c :: part) cs

/-- A word cut behind its hyphens. -/
def hyphenated (word : List Char) : List (List Char) :=
  hyphenatedFrom [] [] word

/-- A part cut into pieces of at most `width` characters, or the part itself if that is no width. -/
def chunks (width : Nat) (part : List Char) : List (List Char) :=
  if _wide : 0 < width ∧ width < part.length then
    part.take width :: chunks width (part.drop width)
  else [part]
termination_by part.length
decreasing_by rw [List.length_drop]; omega

/-- Every piece fits. -/
theorem length_of_mem_chunks {width : Nat} (hw : 0 < width) {part piece : List Char}
    (h : piece ∈ chunks width part) : piece.length ≤ width := by
  fun_induction chunks width part with
  | case1 part hlt ih =>
    rcases List.mem_cons.1 h with rfl | h
    · rw [List.length_take]; exact Nat.min_le_left _ _
    · exact ih h
  | case2 part hge =>
    obtain rfl := List.mem_singleton.1 h
    exact Nat.le_of_not_lt fun hlt => hge ⟨hw, hlt⟩

/-- Parts of which only the last one has spaces behind it. -/
def spacedAtEnd (spaces : Nat) : List (List Char) → List Fragment
  | [] => []
  | [part] => [⟨part, spaces⟩]
  | part :: parts => ⟨part, 0⟩ :: spacedAtEnd spaces parts

/-- The fragments of a word with the spaces behind it. -/
def fragmentsOf (width : Nat) (word : List Char) : List Fragment :=
  let spaces := (word.reverse.takeWhile (· = ' ')).length
  spacedAtEnd spaces
    ((hyphenated (word.take (word.length - spaces))).flatMap (chunks width))

/-- The fragments of a text. -/
def fragments (width : Nat) (text : List Char) : List Fragment :=
  (words text).flatMap (fragmentsOf width)

/-- Fills lines with fragments.  `line` is the line that is being filled, with `spaces` behind it. -/
def fill (width : Nat) (line : List Char) (spaces : Nat) : List Fragment → List (List Char)
  | [] => [line]
  | f :: fs =>
    if line.length + spaces + f.part.length ≤ width then
      fill width (line ++ blanks spaces ++ f.part) f.spaces fs
    else line :: fill width f.part f.spaces fs

/-- Lines filled with fragments that fit do fit. -/
theorem length_of_mem_fill {width : Nat} {line : List Char} {spaces : Nat} {fs : List Fragment}
    (hline : line.length ≤ width) (hfs : ∀ f ∈ fs, f.part.length ≤ width) {l : List Char}
    (h : l ∈ fill width line spaces fs) : l.length ≤ width := by
  induction fs generalizing line spaces with
  | nil =>
    obtain rfl := List.mem_singleton.1 h
    exact hline
  | cons f fs ih =>
    have hrest : ∀ g ∈ fs, g.part.length ≤ width := fun g hg => hfs g (List.mem_cons_of_mem _ hg)
    rw [fill] at h
    split at h
    · refine ih ?_ hrest h
      simp only [blanks, List.length_append, List.length_replicate]
      omega
    · rcases List.mem_cons.1 h with rfl | h
      · exact hline
      · exact ih (hfs f List.mem_cons_self) hrest h

/-- The lines of a text, of at most `width` columns. -/
def wrap (width : Nat) (text : List Char) : List (List Char) :=
  fill width [] 0 (fragments width text)

/-- Attaching spaces leaves the parts as they are. -/
theorem mem_of_mem_spacedAtEnd {spaces : Nat} {parts : List (List Char)} {f : Fragment}
    (h : f ∈ spacedAtEnd spaces parts) : f.part ∈ parts := by
  fun_induction spacedAtEnd spaces parts with
  | case1 => cases h
  | case2 part => obtain rfl := List.mem_singleton.1 h; exact List.mem_cons_self
  | case3 part parts _ ih =>
    rcases List.mem_cons.1 h with rfl | h
    · exact List.mem_cons_self
    · exact List.mem_cons_of_mem _ (ih h)

/-- Every line of a wrapped text fits. -/
theorem length_of_mem_wrap {width : Nat} (hw : 0 < width) {text l : List Char}
    (h : l ∈ wrap width text) : l.length ≤ width := by
  refine length_of_mem_fill (Nat.zero_le _) (fun f hf => ?_) h
  obtain ⟨word, -, hf⟩ := List.mem_flatMap.1 hf
  obtain ⟨part, -, hpart⟩ := List.mem_flatMap.1 (mem_of_mem_spacedAtEnd hf)
  exact length_of_mem_chunks hw hpart

end ExprForest.Text

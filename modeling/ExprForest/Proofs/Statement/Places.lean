import ExprForest.Proofs.Lexical.Reading
import ExprForest.Proofs.Text.Position
import ExprForest.Statement.Search

namespace ExprForest

/-!
# Lexemes at a place

What the searches for single lexemes find at a place of a line, told by the tokens that stand there.

* `Statement.Place.Shows`, `Statement.Place.Settled` — the tokens from a place on, and a place at which no
  space stands;
* `Statement.Place.Settled.shows_cases` — at a settled place stands the end of the line or a longest lexeme;
* `Token.Scans.exists_of_mem` — where a token stands in its line;
* `Lexeme.Read` — a function that reads some of the lexemes, with one lemma for numbers, names and signs;
* `Statement.Search.reading_matched`, `Statement.Search.lexeme_failed` and their like — what a search for such
  a lexeme finds.
-/

open Text (byteLength)

/-! ### Functions that read lexemes -/

namespace Lexeme

variable {c : Char} {cs : List Char} {l m : Lexeme}

/-- Whether a function reads those of the longest lexemes at the head of a text that have a property. -/
structure Read (read : List Char → List Char) (P : Lexeme → Prop) : Prop where
  nil : read [] = []
  eq_chars {l : Lexeme} {cs : List Char} : l.Longest cs → P l → read cs = l.chars
  eq_nil {l : Lexeme} {cs : List Char} : l.Longest cs → ¬P l → read cs = []

theorem read_sign (hsign : ofSign? c = some m) : Read (Statement.Search.sign c) (· = m) where
  nil := rfl
  eq_chars {l cs} hl hm := by
    obtain ⟨rest, rfl⟩ := hl.2.1
    have hchars : l.chars = [c] := by rw [hm, chars_of_ofSign? hsign]
    rw [hchars]
    exact if_pos rfl
  eq_nil {l cs} hl hm := by
    cases cs with
    | nil => rfl
    | cons d cs =>
      refine if_neg ?_
      rintro rfl
      exact hm (hl.unique (longest_sign hsign))

theorem read_name : Read Statement.Search.name (fun l => ∃ text, l = name text) where
  nil := rfl
  eq_chars {l cs} hl hname := by
    obtain ⟨text, rfl⟩ := hname
    obtain ⟨c, rest, rfl, hstart, -⟩ := hl.1
    obtain ⟨behind, rfl⟩ := hl.2.1
    have hlongest := hl.unique (longest_name hstart)
    exact (if_pos hstart).trans (Lexeme.name.inj hlongest).symm
  eq_nil {l cs} hl hname := by
    cases cs with
    | nil => rfl
    | cons c cs =>
      refine if_neg fun hstart => hname ?_
      exact ⟨_, hl.unique (longest_name hstart)⟩

theorem read_number : Read Numeral.longest (fun l => ∃ text, l = number text) where
  nil := rfl
  eq_chars {l cs} hl hnumber := by
    obtain ⟨text, rfl⟩ := hnumber
    have hne : Numeral.longest cs ≠ [] := by
      have hle := Numeral.length_le_longest hl.1 hl.2.1
      have hpos := List.length_pos_iff.mpr hl.1.chars_ne_nil
      exact List.length_pos_iff.mp (Nat.lt_of_lt_of_le hpos hle)
    exact (Lexeme.number.inj (hl.unique (longest_number hne))).symm
  eq_nil {l cs} hl hnumber := by
    by_contra hne
    exact hnumber ⟨_, hl.unique (longest_number hne)⟩

end Lexeme

/-! ### Tokens in their line -/

namespace Token

variable {start : Nat} {cs : List Char} {ts : List Token} {t : Token}

/-- A token stands behind as many bytes as it tells. -/
theorem Scans.exists_of_mem (h : Scans start cs ts) (ht : t ∈ ts) :
    ∃ before behind, cs = before ++ (t.lexeme.chars ++ behind) ∧
      t.start = start + byteLength before := by
  induction h with
  | done => cases ht
  | @space start c cs ts _ _ ih =>
    obtain ⟨before, behind, rfl, hstart⟩ := ih ht
    refine ⟨c :: before, behind, rfl, ?_⟩
    rw [hstart, Text.byteLength_cons, Nat.add_assoc]
  | @token start cs rest l ts _ hcs _ ih =>
    rcases List.mem_cons.mp ht with rfl | ht
    · exact ⟨[], rest, hcs, rfl⟩
    · obtain ⟨before, behind, rfl, hstart⟩ := ih ht
      refine ⟨l.chars ++ before, behind, ?_, ?_⟩
      · rw [hcs, List.append_assoc]
      · rw [hstart, Text.byteLength_append, Nat.add_assoc]

end Token

namespace Statement

/-! ### Places -/

namespace Place

variable {p : Place} {ts : List Token} {size : Nat}

/-- The tokens from a place on, in a line of `size` bytes. -/
structure Shows (size : Nat) (p : Place) (ts : List Token) : Prop where
  scans : Token.Scans p.offset p.rest ts
  size_eq : p.offset + byteLength p.rest = size

theorem shows_start {line : String} (h : Token.Lexes line ts) :
    (start line).Shows line.utf8ByteSize ts where
  scans := h
  size_eq := by
    show 0 + byteLength line.toList = _
    rw [Nat.zero_add, Text.byteLength_toList]

/-- No space stands at a place. -/
def Settled (p : Place) : Prop :=
  ∀ c cs, p.rest = c :: cs → ¬isSpace c = true

theorem skip_cons_of_isSpace {c : Char} {cs : List Char} {offset : Nat} (hc : isSpace c = true) :
    (⟨offset, c :: cs⟩ : Place).skip = (⟨offset + c.utf8Size, cs⟩ : Place).skip :=
  if_pos hc

theorem skip_cons_of_not_isSpace {c : Char} {cs : List Char} {offset : Nat}
    (hc : ¬isSpace c = true) : (⟨offset, c :: cs⟩ : Place).skip = ⟨offset, c :: cs⟩ :=
  if_neg hc

theorem settled_skip (p : Place) : p.skip.Settled := by
  obtain ⟨offset, cs⟩ := p
  induction cs generalizing offset with
  | nil => nofun
  | cons c cs ih =>
    by_cases hc : isSpace c = true
    · rw [skip_cons_of_isSpace hc]
      exact ih _
    · rw [skip_cons_of_not_isSpace hc]
      rintro _ _ ⟨⟩
      exact hc

theorem offset_le_skip (p : Place) : p.offset ≤ p.skip.offset := by
  obtain ⟨offset, cs⟩ := p
  induction cs generalizing offset with
  | nil => exact Nat.le_refl _
  | cons c cs ih =>
    by_cases hc : isSpace c = true
    · rw [skip_cons_of_isSpace hc]
      exact Nat.le_trans (Nat.le_add_right _ _) (ih _)
    · rw [skip_cons_of_not_isSpace hc]

theorem length_skip_le (p : Place) : p.skip.rest.length ≤ p.rest.length := by
  obtain ⟨offset, cs⟩ := p
  induction cs generalizing offset with
  | nil => exact Nat.le_refl _
  | cons c cs ih =>
    by_cases hc : isSpace c = true
    · rw [skip_cons_of_isSpace hc]
      exact Nat.le_succ_of_le (ih _)
    · rw [skip_cons_of_not_isSpace hc]

theorem Settled.skip_eq (h : p.Settled) : p.skip = p := by
  obtain ⟨offset, cs⟩ := p
  cases cs with
  | nil => rfl
  | cons c cs => exact skip_cons_of_not_isSpace (h c cs rfl)

theorem skip_skip (p : Place) : p.skip.skip = p.skip :=
  p.settled_skip.skip_eq

/-- Spaces are no tokens. -/
theorem Shows.skip (h : p.Shows size ts) : p.skip.Shows size ts := by
  obtain ⟨offset, cs⟩ := p
  induction cs generalizing offset with
  | nil => exact h
  | cons c cs ih =>
    by_cases hc : isSpace c = true
    · rw [skip_cons_of_isSpace hc]
      refine ih _ ⟨(Token.scans_space hc).mp h.scans, ?_⟩
      have hsize : offset + byteLength (c :: cs) = size := h.size_eq
      rw [Text.byteLength_cons] at hsize
      show offset + c.utf8Size + byteLength cs = size
      omega
    · rwa [skip_cons_of_not_isSpace hc]

/-- At a settled place stands the end of the line, or a longest lexeme, behind which the line goes on. -/
theorem Settled.shows_cases (hsettled : p.Settled) (h : p.Shows size ts) :
    (ts = [] ∧ p.rest = []) ∨
      ∃ l us, ts = ⟨l, p.offset⟩ :: us ∧ l.Longest p.rest ∧ (p.behind l.chars).Shows size us := by
  obtain ⟨offset, cs⟩ := p
  obtain ⟨hscans, hsize⟩ := h
  cases hscans with
  | done => exact .inl ⟨rfl, rfl⟩
  | space hc _ => exact absurd hc (hsettled _ _ rfl)
  | @token _ _ rest l ts hl hcs hrest =>
    have hdrop : cs.drop l.chars.length = rest := by
      rw [show cs = l.chars ++ rest from hcs]
      exact List.drop_left
    refine .inr ⟨l, ts, rfl, hl, ?_, ?_⟩
    · show Token.Scans _ (cs.drop _) ts
      rw [hdrop]
      exact hrest
    · show offset + byteLength l.chars + byteLength (cs.drop _) = size
      have hsize : offset + byteLength cs = size := hsize
      rw [show cs = l.chars ++ rest from hcs, Text.byteLength_append] at hsize
      rw [hdrop]
      omega

/-- At the end of the line no characters are left, and its bytes are before it. -/
theorem Settled.shows_nil (hsettled : p.Settled) (h : p.Shows size []) :
    p.rest = [] ∧ p.offset = size := by
  rcases hsettled.shows_cases h with ⟨-, hnil⟩ | ⟨l, us, hts, -⟩
  · have hsize := h.size_eq
    rw [hnil] at hsize
    exact ⟨hnil, hsize⟩
  · cases hts

theorem Settled.shows_cons {t : Token} (hsettled : p.Settled) (h : p.Shows size (t :: ts)) :
    t.start = p.offset ∧ t.lexeme.Longest p.rest ∧ (p.behind t.lexeme.chars).Shows size ts := by
  rcases hsettled.shows_cases h with ⟨hts, -⟩ | ⟨l, us, hts, hl, hbehind⟩
  · cases hts
  · obtain ⟨rfl, rfl⟩ := List.cons.inj hts
    exact ⟨rfl, hl, hbehind⟩

/-- A settled place stands where the first of its tokens starts, or where the line ends. -/
theorem Settled.offset_eq (hsettled : p.Settled) (h : p.Shows size ts) :
    p.offset = (ts.head?.map Token.start).getD size := by
  cases ts with
  | nil => exact (hsettled.shows_nil h).2
  | cons t ts => exact (hsettled.shows_cons h).1.symm

/-- Behind a lexeme stands a later byte. -/
theorem offset_lt_behind {l : Lexeme} (h : l.Longest p.rest) :
    p.offset < (p.behind l.chars).offset := by
  have := Text.byteLength_pos h.1.chars_ne_nil
  show p.offset < p.offset + byteLength l.chars
  omega

/-- Behind a lexeme fewer characters are left. -/
theorem length_behind_lt {l : Lexeme} (h : l.Longest p.rest) :
    (p.behind l.chars).rest.length < p.rest.length := by
  have hpos := List.length_pos_iff.mpr h.1.chars_ne_nil
  have hle := h.2.1.length_le
  show (p.rest.drop l.chars.length).length < p.rest.length
  rw [List.length_drop]
  omega

/-- Every token takes up characters. -/
theorem Shows.length_le (h : p.Shows size ts) : ts.length ≤ p.rest.length := by
  obtain ⟨offset, cs⟩ := p
  obtain ⟨hscans, -⟩ := h
  change Token.Scans offset cs ts at hscans
  show ts.length ≤ cs.length
  induction hscans with
  | done => exact Nat.le_refl _
  | space _ _ ih => exact Nat.le_succ_of_le ih
  | token hl hcs _ ih =>
    have hpos := List.length_pos_iff.mpr hl.1.chars_ne_nil
    rw [hcs, List.length_append, List.length_cons]
    omega

end Place

/-! ### Searches for a lexeme -/

namespace Search

variable {read : List Char → List Char} {P : Lexeme → Prop} {parts : List Char → List Part}
variable {rule : Rule} {size : Nat} {place : Place} {tries : Tries} {t : Token} {ts : List Token}

/-- A lexeme that is read leaves its parts. -/
theorem reading_matched (hread : Lexeme.Read read P) (hsettled : place.Settled)
    (hshows : place.Shows size (t :: ts)) (hP : P t.lexeme) :
    reading read parts place tries =
      (.matched (parts t.lexeme.chars) (place.behind t.lexeme.chars), tries) := by
  obtain ⟨-, hl, -⟩ := hsettled.shows_cons hshows
  obtain ⟨c, cs, hchars⟩ := List.exists_cons_of_ne_nil hl.1.chars_ne_nil
  rw [reading, hread.eq_chars hl hP, hchars]

/-- Any other lexeme is left, and nothing is found at the end of the line. -/
theorem reading_failed (hread : Lexeme.Read read P) (hsettled : place.Settled)
    (hshows : place.Shows size ts) (hP : ∀ t us, ts = t :: us → ¬P t.lexeme) :
    reading read parts place tries = (.failed, tries) := by
  cases ts with
  | nil => rw [reading, (hsettled.shows_nil hshows).1, hread.nil]
  | cons t ts =>
    obtain ⟨-, hl, -⟩ := hsettled.shows_cons hshows
    rw [reading, hread.eq_nil hl (hP t ts rfl)]

theorem lexeme_matched (hread : Lexeme.Read read P) (hsettled : place.Settled)
    (hshows : place.Shows size (t :: ts)) (hP : P t.lexeme) :
    lexeme rule read place tries =
      (.matched [.lexeme rule t.lexeme.chars] (place.behind t.lexeme.chars), tries) := by
  rw [lexeme, named, reading_matched hread hsettled hshows hP]

/-- A rule that finds no lexeme is taken down. -/
theorem lexeme_failed (hread : Lexeme.Read read P) (hsettled : place.Settled)
    (hshows : place.Shows size ts) (hP : ∀ t us, ts = t :: us → ¬P t.lexeme) :
    lexeme rule read place tries = (.failed, tries.note tries rule place.offset) := by
  rw [lexeme, named, reading_failed hread hsettled hshows hP]

end Search

end Statement

end ExprForest

import ExprForest.Grammar.Standard
import ExprForest.Proofs.Lexical.Seams
import ExprForest.Proofs.Text.Position
import ExprForest.Text.Blank

namespace ExprForest

/-!
# How far the lexical pass comes

The pass passes over spaces, and where none stands it takes the longest lexeme.  This module says what
lies behind it wherever it stops, at the end of the line or before it.

* `Lexeme.WellFormed.printable` — lexemes are made of visible characters, hence hold no white space;
* `Token.laid`, `Token.Munches` — a text as tokens with runs of spaces between and around them, each
  token the longest lexeme where it starts, and what is left of the text behind them;
* `Token.scan_of_munches` — the pass takes these tokens and goes on behind them;
* `Token.exists_munches` — it goes on until nothing is left or no lexeme starts;
* `Token.ofLine_munches` — put together for lines.
-/

open Text (byteLength)

/-! ### The characters of lexemes -/

namespace Lexeme

variable {c : Char} {l : Lexeme}

theorem printable_of_isDigit (h : c.isDigit = true) : 0x21 ≤ c.toNat ∧ c.toNat ≤ 0x7e := by
  rw [Char.isDigit_iff_toNat] at h
  have hzero : '0'.toNat = 48 := rfl
  have hnine : '9'.toNat = 57 := rfl
  omega

theorem printable_of_isNameRest (h : isNameRest c = true) : 0x21 ≤ c.toNat ∧ c.toNat ≤ 0x7e := by
  have hclass : (c.isAlpha = true ∨ c.isDigit = true) ∨ c = '_' := by
    simpa [isNameRest, Char.isAlphanum] using h
  rcases hclass with (halpha | hdigit) | rfl
  · simp only [Char.isAlpha, Char.isUpper, Char.isLower, Bool.or_eq_true, Bool.and_eq_true,
      decide_eq_true_eq, ge_iff_le, UInt32.le_iff_toNat_le, Char.toNat_val] at halpha
    have hA : 'A'.toNat = 65 := rfl
    have hZ : 'Z'.toNat = 90 := rfl
    have ha : 'a'.toNat = 97 := rfl
    have hz : 'z'.toNat = 122 := rfl
    omega
  · exact printable_of_isDigit hdigit
  · decide

theorem isNameRest_of_isNameStart (h : isNameStart c = true) : isNameRest c = true := by
  have hclass : c.isAlpha = true ∨ c = '_' := by simpa [isNameStart] using h
  rcases hclass with halpha | rfl
  · simp [isNameRest, Char.isAlphanum, halpha]
  · rfl

/-- Lexemes are made of visible characters of ASCII. -/
theorem WellFormed.printable (hl : l.WellFormed) (hmem : c ∈ l.chars) :
    0x21 ≤ c.toNat ∧ c.toNat ≤ 0x7e := by
  cases l with
  | number text =>
    obtain ⟨m, x, hm, hx, rfl⟩ := Numeral.exists_append_of_isNumeral hl
    rcases List.mem_append.mp hmem with hmem | hmem
    · rcases Numeral.isDigit_or_eq_point hm c hmem with hdigit | rfl
      · exact printable_of_isDigit hdigit
      · decide
    · rcases hx with rfl | hx
      · cases hmem
      · rcases hx.mem_cases c hmem with hdigit | rfl | rfl | rfl | rfl
        · exact printable_of_isDigit hdigit
        all_goals decide
  | name text =>
    obtain ⟨d, t, rfl, hd, ht⟩ := hl
    rcases List.mem_cons.mp hmem with rfl | hmem
    · exact printable_of_isNameRest (isNameRest_of_isNameStart hd)
    · exact printable_of_isNameRest (ht c hmem)
  | additive sign => cases sign <;> obtain rfl := List.mem_singleton.mp hmem <;> decide
  | multiplicative sign => cases sign <;> obtain rfl := List.mem_singleton.mp hmem <;> decide
  | _ =>
    obtain rfl := List.mem_singleton.mp hmem
    decide

/-- No lexeme holds white space of any kind. -/
theorem WellFormed.not_isWhiteSpace (hl : l.WellFormed) (hmem : c ∈ l.chars) :
    Text.isWhiteSpace c = false := by
  have hc := hl.printable hmem
  rw [Bool.eq_false_iff]
  intro hspace
  have hranges := List.any_eq_true.mp hspace
  simp only [Text.whiteSpaceRanges, List.mem_cons, List.not_mem_nil, or_false, exists_eq_or_imp,
    exists_eq_left, Bool.and_eq_true, decide_eq_true_eq] at hranges
  omega

end Lexeme

namespace Token

variable {start : Nat} {c : Char} {cs gap behind rest : List Char} {l : Lexeme} {t : Token}
  {read : List Token} {parts : List (Token × List Char)}

/-! ### Tokens and the spaces around them -/

/-- The text of a run of spaces and then tokens, each with what stands behind it. -/
def laid (gap : List Char) : List (Token × List Char) → List Char
  | [] => gap
  | (t, behind) :: parts => gap ++ (t.lexeme.chars ++ laid behind parts)

/-- How the pass goes over a text that starts at byte `start` of its line, down to what is left of it:
    spaces, then tokens with spaces behind them, each the longest lexeme at its place. -/
structure Munches (start : Nat) (cs gap : List Char) (parts : List (Token × List Char))
    (rest : List Char) : Prop where
  /-- The tokens and the spaces are the text, up to what is left. -/
  text : cs = laid gap parts ++ rest
  /-- Nothing but spaces stands before the first token. -/
  spaces : ∀ c ∈ gap, isSpace c = true
  /-- Nothing but spaces stands between two tokens and behind the last one. -/
  between : ∀ part ∈ parts, ∀ c ∈ part.2, isSpace c = true
  /-- Each token starts where the text before it ends. -/
  starts : ∀ before t behind after, parts = before ++ (t, behind) :: after →
    t.start = start + byteLength (laid gap before)
  /-- No token is empty. -/
  nonempty : ∀ part ∈ parts, part.1.lexeme.chars ≠ []
  /-- Each token is a lexeme, and none at its place is longer. -/
  longest : ∀ before t behind after, parts = before ++ (t, behind) :: after →
    t.lexeme.Longest (t.lexeme.chars ++ (laid behind after ++ rest))

theorem laid_cons_gap (c : Char) (gap : List Char) (parts : List (Token × List Char)) :
    laid (c :: gap) parts = c :: laid gap parts := by
  cases parts <;> rfl

/-- Where nothing is taken, all is left. -/
theorem Munches.nothing (start : Nat) (cs : List Char) : Munches start cs [] [] cs where
  text := rfl
  spaces := by simp
  between := by simp
  starts := by simp
  nonempty := by simp
  longest := by simp

/-- A space before the rest. -/
theorem Munches.space (h : Munches (start + c.utf8Size) cs gap parts rest) (hc : isSpace c = true) :
    Munches start (c :: cs) (c :: gap) parts rest where
  text := by rw [laid_cons_gap, h.text, List.cons_append]
  spaces := by
    intro d hd
    rcases List.mem_cons.mp hd with rfl | hd
    · exact hc
    · exact h.spaces d hd
  between := h.between
  starts := by
    intro before t behind after hparts
    rw [h.starts before t behind after hparts, laid_cons_gap, Text.byteLength_cons, Nat.add_assoc]
  nonempty := h.nonempty
  longest := h.longest

/-- A token before the rest. -/
theorem Munches.token (h : Munches (start + byteLength l.chars) cs gap parts rest)
    (hl : l.Longest (l.chars ++ cs)) :
    Munches start (l.chars ++ cs) [] ((⟨l, start⟩, gap) :: parts) rest where
  text := by rw [laid, List.nil_append, List.append_assoc, ← h.text]
  spaces := by simp
  between := by
    intro part hpart
    rcases List.mem_cons.mp hpart with rfl | hpart
    · exact h.spaces
    · exact h.between part hpart
  starts := by
    intro before t behind after hparts
    rcases List.cons_eq_append_iff.mp hparts with ⟨rfl, hhead⟩ | ⟨before, rfl, htail⟩
    · obtain ⟨⟨rfl, -⟩, -⟩ := (List.cons.inj hhead).imp_left Prod.mk.inj
      rw [laid, Text.byteLength_nil, Nat.add_zero]
    · rw [h.starts before t behind after htail, laid, List.nil_append, Text.byteLength_append,
        Nat.add_assoc]
  nonempty := by
    intro part hpart
    rcases List.mem_cons.mp hpart with rfl | hpart
    · exact hl.1.chars_ne_nil
    · exact h.nonempty part hpart
  longest := by
    intro before t behind after hparts
    rcases List.cons_eq_append_iff.mp hparts with ⟨rfl, hhead⟩ | ⟨before, rfl, htail⟩
    · obtain ⟨⟨rfl, rfl⟩, rfl⟩ := (List.cons.inj hhead).imp_left Prod.mk.inj
      rw [← h.text]
      exact hl
    · exact h.longest before t behind after htail

/-- The text behind the first token. -/
theorem Munches.tail (h : Munches start cs gap ((t, behind) :: parts) rest) :
    Munches (start + byteLength gap + byteLength t.lexeme.chars) (laid behind parts ++ rest) behind
      parts rest where
  text := rfl
  spaces := h.between (t, behind) List.mem_cons_self
  between := fun part hpart => h.between part (List.mem_cons_of_mem _ hpart)
  starts := by
    intro before u after' after hparts
    rw [h.starts ((t, behind) :: before) u after' after (by rw [hparts]; rfl), laid,
      Text.byteLength_append, Text.byteLength_append]
    omega
  nonempty := fun part hpart => h.nonempty part (List.mem_cons_of_mem _ hpart)
  longest := by
    intro before u after' after hparts
    exact h.longest ((t, behind) :: before) u after' after (by rw [hparts]; rfl)

/-- The tokens and spaces that are passed hold no line feed. -/
theorem Munches.lineFeed_not_mem (h : Munches start cs gap parts rest) : '\n' ∉ laid gap parts := by
  have hspaces : ∀ ds : List Char, (∀ d ∈ ds, isSpace d = true) → '\n' ∉ ds := by
    intro ds hds hmem
    exact absurd (hds _ hmem) (by decide)
  induction parts generalizing start cs gap with
  | nil => exact hspaces gap h.spaces
  | cons part parts ih =>
    obtain ⟨t, behind⟩ := part
    have hl := h.longest [] t behind parts rfl
    rw [laid, List.mem_append, List.mem_append]
    rintro (hmem | hmem | hmem)
    · exact hspaces gap h.spaces hmem
    · exact absurd (hl.1.printable hmem).1 (by decide)
    · exact ih h.tail hmem

/-! ### The pass -/

theorem scan_spaces (hgap : ∀ c ∈ gap, isSpace c = true) (read : List Token) (start : Nat)
    (cs : List Char) : scan read start (gap ++ cs) = scan read (start + byteLength gap) cs := by
  induction gap generalizing start with
  | nil => rfl
  | cons c gap ih =>
    have hc := hgap c List.mem_cons_self
    rw [List.cons_append, scan, if_pos hc, ih fun d hd => hgap d (List.mem_cons_of_mem _ hd),
      Text.byteLength_cons, Nat.add_assoc]

theorem scan_lexeme (hl : l.Longest (l.chars ++ cs)) (read : List Token) (start : Nat) :
    scan read start (l.chars ++ cs) = scan (⟨l, start⟩ :: read) (start + byteLength l.chars) cs := by
  obtain ⟨c, ds, hcs⟩ := List.exists_cons_of_ne_nil hl.1.chars_ne_nil
  have hc : ¬isSpace c = true := hl.1.not_isSpace (by rw [hcs]; exact List.mem_cons_self)
  have hread : Lexeme.read? (l.chars ++ cs) = some (l, cs) := Lexeme.read?_eq_some_iff.mpr ⟨hl, rfl⟩
  have hhead : l.chars ++ cs = c :: (ds ++ cs) := by rw [hcs, List.cons_append]
  rw [hhead] at hread ⊢
  rw [scan, if_neg hc]
  split
  · rename_i hnone
    rw [hread] at hnone
    cases hnone
  · rename_i l' cs' hsome
    obtain ⟨rfl, rfl⟩ := Prod.mk.inj (Option.some.inj (hread.symm.trans hsome))
    rfl

/-- The pass takes the tokens of a text and goes on behind them. -/
theorem scan_of_munches (h : Munches start cs gap parts rest) (read : List Token) :
    scan read start cs =
      scan ((parts.map Prod.fst).reverse ++ read) (start + byteLength (laid gap parts)) rest := by
  induction parts generalizing start cs gap read with
  | nil =>
    rw [h.text]
    exact scan_spaces h.spaces read start rest
  | cons part parts ih =>
    obtain ⟨t, behind⟩ := part
    have hstart : t.start = start + byteLength gap := h.starts [] t behind parts rfl
    have hl := h.longest [] t behind parts rfl
    have htoken : (⟨t.lexeme, start + byteLength gap⟩ : Token) = t := by rw [← hstart]
    rw [h.text, laid, List.append_assoc, scan_spaces h.spaces, List.append_assoc, scan_lexeme hl,
      htoken, ih h.tail, List.map_cons, List.reverse_cons, List.append_assoc, List.singleton_append,
      Text.byteLength_append, Text.byteLength_append]
    congr 1
    omega

/-- Whether the pass cannot go on: no space and no lexeme stands at the head of the text. -/
def Stuck (c : Char) (behind : List Char) : Prop :=
  isSpace c = false ∧ ∀ m : Lexeme, m.WellFormed → ¬m.chars <+: c :: behind

/-- Where it cannot go on, the pass fails. -/
theorem Stuck.scan_eq (h : Stuck c behind) (read : List Token) (start : Nat) :
    scan read start (c :: behind) = .error ⟨c, start⟩ := by
  have hread := Lexeme.read?_eq_none_iff.mpr h.2
  rw [scan, if_neg (by rw [h.1]; decide)]
  split
  · rfl
  · rename_i hsome
    rw [hread] at hsome
    cases hsome

/-- The pass goes on until nothing is left or it is stuck. -/
theorem exists_munches (start : Nat) (cs : List Char) :
    ∃ gap parts rest, Munches start cs gap parts rest ∧
      (rest = [] ∨ ∃ c behind, rest = c :: behind ∧ Stuck c behind) := by
  -- by the recursion of the pass, whatever has been read before
  fun_induction scan [] start cs with
  | case1 _ start => exact ⟨[], [], [], .nothing start [], .inl rfl⟩
  | case2 _ start c cs hc ih =>
    obtain ⟨gap, parts, rest, h, hrest⟩ := ih
    exact ⟨c :: gap, parts, rest, h.space hc, hrest⟩
  | case3 _ start c cs hc hnone =>
    have hstuck : Stuck c cs := ⟨Bool.eq_false_iff.mpr hc, Lexeme.read?_eq_none_iff.mp hnone⟩
    exact ⟨[], [], c :: cs, .nothing start _, .inr ⟨c, cs, rfl, hstuck⟩⟩
  | case4 _ start c cs hc l rest hread _ ih =>
    obtain ⟨gap, parts, rest', h, hrest'⟩ := ih
    obtain ⟨hl, hcs⟩ := Lexeme.read?_eq_some_iff.mp hread
    rw [hcs] at hl ⊢
    exact ⟨[], _, rest', h.token hl, hrest'⟩

/-! ### Lines -/

variable {line : String} {ts : List Token} {stray : Stray}

/-- The pass takes all of a line that is made of tokens and spaces. -/
theorem Munches.ofLine_eq_ok (h : Munches 0 line.toList gap parts []) :
    ofLine line = .ok (parts.map Prod.fst) := by
  rw [ofLine, scan_of_munches h, scan, List.append_nil, List.reverse_reverse]

/-- The pass fails where it is stuck. -/
theorem Munches.ofLine_eq_error (h : Munches 0 line.toList gap parts (c :: behind))
    (hstuck : Stuck c behind) : ofLine line = .error ⟨c, byteLength (laid gap parts)⟩ := by
  rw [ofLine, scan_of_munches h, hstuck.scan_eq, Nat.zero_add]

theorem ofLine_eq_ok_iff_munches :
    ofLine line = .ok ts ↔ ∃ gap parts, Munches 0 line.toList gap parts [] ∧ ts = parts.map Prod.fst := by
  constructor
  · intro h
    obtain ⟨gap, parts, rest, hmunches, rfl | ⟨c, behind, rfl, hstuck⟩⟩ := exists_munches 0 line.toList
    · rw [hmunches.ofLine_eq_ok] at h
      exact ⟨gap, parts, hmunches, (Except.ok.inj h).symm⟩
    · rw [hmunches.ofLine_eq_error hstuck] at h
      cases h
  · rintro ⟨gap, parts, hmunches, rfl⟩
    exact hmunches.ofLine_eq_ok

theorem ofLine_eq_error_iff_munches :
    ofLine line = .error stray ↔ ∃ gap parts behind,
      Munches 0 line.toList gap parts (stray.char :: behind) ∧
      stray.start = byteLength (laid gap parts) ∧ Stuck stray.char behind := by
  constructor
  · intro h
    obtain ⟨gap, parts, rest, hmunches, rfl | ⟨c, behind, rfl, hstuck⟩⟩ := exists_munches 0 line.toList
    · rw [hmunches.ofLine_eq_ok] at h
      cases h
    · rw [hmunches.ofLine_eq_error hstuck] at h
      obtain rfl := Except.error.inj h
      exact ⟨gap, parts, behind, hmunches, rfl, hstuck⟩
  · rintro ⟨gap, parts, behind, hmunches, hstart, hstuck⟩
    rw [hmunches.ofLine_eq_error hstuck, ← hstart]

/-- A line with a line feed is not read, and the pass stops there at the latest. -/
theorem exists_stray_of_lineFeed {before behind : List Char} (h : line.toList = before ++ '\n' :: behind) :
    ∃ stray, ofLine line = .error stray ∧ stray.start ≤ byteLength before := by
  obtain ⟨gap, parts, rest, hmunches, hrest⟩ := exists_munches 0 line.toList
  have htext := hmunches.text
  -- the tokens and spaces that are passed end before the line feed
  have hbefore : laid gap parts <+: before := by
    have hpre : laid gap parts <+: line.toList := ⟨rest, htext.symm⟩
    have hupto : before ++ ['\n'] <+: line.toList := ⟨behind, by simp [h]⟩
    rcases Nat.lt_or_ge before.length (laid gap parts).length with hlt | hle
    · have hinside : before ++ ['\n'] <+: laid gap parts := by
        apply List.prefix_of_prefix_length_le hupto hpre
        rw [List.length_append, List.length_singleton]
        exact hlt
      exact absurd (hinside.subset (by simp)) hmunches.lineFeed_not_mem
    · exact List.prefix_of_prefix_length_le hpre ⟨_, h.symm⟩ hle
  rcases hrest with rfl | ⟨c, ds, rfl, hstuck⟩
  · have hmem : '\n' ∈ line.toList := by simp [h]
    rw [htext, List.append_nil] at hmem
    exact absurd hmem hmunches.lineFeed_not_mem
  · refine ⟨_, hmunches.ofLine_eq_error hstuck, ?_⟩
    obtain ⟨more, rfl⟩ := hbefore
    rw [Text.byteLength_append]
    exact Nat.le_add_right _ _

/-- **The lexical pass is greedy and complete.**  It succeeds exactly on the lines that are tokens with
    runs of spaces between and around them, each token the longest lexeme at its place.  It fails exactly
    where it has passed such tokens and spaces and stands before a character that is no space and at
    which no lexeme starts; under every limit the engine then names that character as an invalid token
    and marks its bytes.  A line feed stops it at the latest. -/
theorem ofLine_munches (line : String) :
    (∀ ts, ofLine line = .ok ts ↔
      ∃ gap parts, Munches 0 line.toList gap parts [] ∧ ts = parts.map Prod.fst) ∧
    (∀ stray, ofLine line = .error stray ↔ ∃ gap parts behind,
      Munches 0 line.toList gap parts (stray.char :: behind) ∧
      stray.start = byteLength (laid gap parts) ∧ isSpace stray.char = false ∧
      ∀ m : Lexeme, m.WellFormed → ¬m.chars <+: stray.char :: behind) ∧
    (∀ stray, ofLine line = .error stray → ∀ limit, ∃ span : Span,
      (Standard.Engine.run ⟨line, limit, .fresh⟩).1 =
        .error (.invalidToken (String.singleton stray.char) span) ∧
      span = .cover line stray.start (stray.start + stray.char.utf8Size) ∧
      span.offset = stray.start ∧ span.length = stray.char.utf8Size) ∧
    ∀ before behind, line.toList = before ++ '\n' :: behind →
      ∃ stray, ofLine line = .error stray ∧ stray.start ≤ byteLength before := by
  refine ⟨fun _ => ofLine_eq_ok_iff_munches, fun _ => ofLine_eq_error_iff_munches, ?_,
    fun _ _ => exists_stray_of_lineFeed⟩
  intro stray h limit
  have hrun : (Standard.Engine.run ⟨line, limit, .fresh⟩).1 =
      .error (Statement.strayFailure line stray) := by
    show Statement.outcome limit line = _
    rw [Statement.outcome, h]
  -- a character has bytes, so the span is not empty
  have hlt : ¬stray.start + stray.char.utf8Size ≤ stray.start := by
    have := stray.char.utf8Size_pos
    omega
  refine ⟨_, hrun, rfl, ?_, ?_⟩
  · rw [Span.cover, if_neg hlt]
  · rw [Span.cover, if_neg hlt]
    exact Nat.add_sub_cancel_left _ _

end Token

end ExprForest

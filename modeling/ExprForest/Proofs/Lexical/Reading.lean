import ExprForest.Proofs.Lexical.Numerals

namespace ExprForest

/-!
# Reading lexemes and lines

The functions that read against the lexical rules.

* `Lexeme.WellFormed.head` — the first character tells the kind of a lexeme;
* `Lexeme.read?_eq_some_iff`, `Lexeme.read?_eq_none_iff` — the lexeme read at the head of a text is the
  longest one there, and none is read exactly where none stands;
* `Token.ofLine_eq_ok_iff` — the tokens read are the tokens of the line;
* `Token.Scans.unique` — a text is cut into tokens in one way only.
-/

/-! ### First characters -/

/-- The first characters of numbers. -/
def IsNumeralStart (c : Char) : Prop :=
  c.isDigit = true ∨ c = '.'

namespace Lexeme

variable {c : Char} {cs rest : List Char} {l m : Lexeme}

theorem not_isNumeralStart_of_isNameStart (h : isNameStart c = true) : ¬IsNumeralStart c := by
  rintro (hd | rfl)
  · rw [Char.isDigit_iff_toNat] at hd
    -- letters lie above the digits
    have hnine : '9'.toNat = 57 := rfl
    simp only [isNameStart, Char.isAlpha, Char.isUpper, Char.isLower, Bool.or_eq_true,
      Bool.and_eq_true, decide_eq_true_eq, beq_iff_eq, ge_iff_le, UInt32.le_iff_toNat_le,
      Char.toNat_val] at h
    rcases h with (⟨h, -⟩ | ⟨h, -⟩) | rfl
    · have : 'A'.toNat = 65 := rfl
      omega
    · have : 'a'.toNat = 97 := rfl
      omega
    · exact absurd hd (by decide)
  · exact absurd h (by decide)

/-- No name and no number starts with a sign. -/
theorem not_start_of_ofSign? (h : ofSign? c = some l) : isNameStart c = false ∧ ¬IsNumeralStart c := by
  unfold ofSign? at h
  unfold IsNumeralStart
  split at h
  case h_10 => cases h
  all_goals decide

/-- A sign is a lexeme that the rules allow. -/
theorem wellFormed_of_ofSign? (h : ofSign? c = some l) : l.WellFormed := by
  unfold ofSign? at h
  split at h
  case h_10 => cases h
  all_goals
    obtain rfl := Option.some.inj h
    trivial

/-- The first character of a number. -/
theorem exists_cons_of_isNumeral {text : List Char} (h : IsNumeral text) :
    ∃ d t, text = d :: t ∧ IsNumeralStart d := by
  obtain ⟨m, x, hm, -, rfl⟩ := Numeral.exists_append_of_isNumeral h
  obtain ⟨d, t, rfl⟩ := List.exists_cons_of_ne_nil hm.ne_nil
  exact ⟨d, t ++ x, rfl, Numeral.isDigit_or_eq_point hm d List.mem_cons_self⟩

/-- A lexeme has a first character. -/
theorem WellFormed.chars_ne_nil (hm : m.WellFormed) : m.chars ≠ [] := by
  cases m with
  | number text =>
    obtain ⟨d, t, rfl, -⟩ := exists_cons_of_isNumeral hm
    exact List.cons_ne_nil d t
  | name text =>
    obtain ⟨d, t, rfl, -⟩ := hm
    exact List.cons_ne_nil d t
  | additive sign => cases sign <;> exact List.cons_ne_nil _ _
  | multiplicative sign => cases sign <;> exact List.cons_ne_nil _ _
  | _ => exact List.cons_ne_nil _ _

/-- The first character of a text tells the kind of the lexeme at its head. -/
theorem WellFormed.head (hm : m.WellFormed) (hpre : m.chars <+: c :: cs) :
    ofSign? c = some m ∨
      (∃ t, m = name (c :: t) ∧ isNameStart c = true ∧ ∀ d ∈ t, isNameRest d = true) ∨
      ∃ t, m = number (c :: t) ∧ IsNumeral (c :: t) ∧ IsNumeralStart c := by
  -- a sign is the whole text of its lexeme
  have hsign : ∀ d : Char, [d] <+: c :: cs → c = d := by
    rintro d ⟨rest, hrest⟩
    exact (List.cons.inj hrest).1.symm
  cases m with
  | number text =>
    obtain ⟨d, t, rfl, hd⟩ := exists_cons_of_isNumeral hm
    obtain rfl := (List.cons_prefix_cons.mp hpre).1
    exact .inr (.inr ⟨t, rfl, hm, hd⟩)
  | name text =>
    obtain ⟨d, t, rfl, hd, ht⟩ := hm
    obtain rfl := (List.cons_prefix_cons.mp hpre).1
    exact .inr (.inl ⟨t, rfl, hd, ht⟩)
  | additive sign => cases sign <;> exact .inl (by rw [hsign _ hpre]; rfl)
  | multiplicative sign => cases sign <;> exact .inl (by rw [hsign _ hpre]; rfl)
  | _ => exact .inl (by rw [hsign _ hpre]; rfl)

/-! ### Lexemes -/

/-- A sign is the longest lexeme at its place. -/
theorem longest_sign (hsign : ofSign? c = some l) : l.Longest (c :: cs) := by
  have hchars := chars_of_ofSign? hsign
  obtain ⟨hname, hnumeral⟩ := not_start_of_ofSign? hsign
  refine ⟨wellFormed_of_ofSign? hsign, by simp [hchars], ?_⟩
  intro m hm hpre
  rcases hm.head hpre with hm | ⟨t, -, hstart, -⟩ | ⟨t, -, -, hstart⟩
  · rw [chars_of_ofSign? hm, hchars]
  · rw [hname] at hstart
    cases hstart
  · exact absurd hstart hnumeral

/-- A name that reaches as far as it can is the longest lexeme at its place. -/
theorem longest_name (hname : isNameStart c = true) :
    (name (c :: cs.takeWhile isNameRest)).Longest (c :: cs) := by
  refine ⟨⟨c, _, rfl, hname, fun _ hd => List.mem_takeWhile_imp hd⟩, ?_, ?_⟩
  · exact (List.prefix_cons_inj c).mpr (List.takeWhile_prefix _)
  · intro m hm hpre
    rcases hm.head hpre with hm | ⟨t, rfl, -, ht⟩ | ⟨t, -, -, hstart⟩
    · rw [(not_start_of_ofSign? hm).1] at hname
      cases hname
    · have hpre := (List.prefix_cons_inj c).mp hpre
      exact Nat.succ_le_succ (Numeral.prefix_takeWhile ht hpre).length_le
    · exact absurd hstart (not_isNumeralStart_of_isNameStart hname)

/-- A longest number is the longest lexeme at its place. -/
theorem longest_number (hne : Numeral.longest cs ≠ []) : (number (Numeral.longest cs)).Longest cs := by
  obtain ⟨htext, hpre⟩ := Numeral.longest_isNumeral hne
  refine ⟨htext, hpre, ?_⟩
  -- the first character tells that neither a sign nor a name stands here
  obtain ⟨d, t, hd, hnumeral⟩ := exists_cons_of_isNumeral htext
  obtain ⟨rest, rfl⟩ : ∃ rest, cs = d :: rest := by
    obtain ⟨rest, hrest⟩ := hpre
    rw [hd] at hrest
    exact ⟨t ++ rest, hrest.symm⟩
  intro m hm hpre
  rcases hm.head hpre with hm | ⟨t, -, hstart, -⟩ | ⟨t, rfl, ht, -⟩
  · exact absurd hnumeral (not_start_of_ofSign? hm).2
  · exact absurd hnumeral (not_isNumeralStart_of_isNameStart hstart)
  · exact Numeral.length_le_longest ht hpre

/-- The lexeme that is read is the longest one at the head of the text. -/
theorem longest_of_read? (h : read? cs = some (l, rest)) : l.Longest cs ∧ cs = l.chars ++ rest := by
  cases cs with
  | nil => cases h
  | cons c cs =>
    rw [read?] at h
    split at h
    · rename_i hsign
      obtain ⟨rfl, rfl⟩ := Prod.mk.inj (Option.some.inj h)
      exact ⟨longest_sign hsign, by rw [chars_of_ofSign? hsign]; rfl⟩
    · split at h
      · rename_i hname
        obtain ⟨rfl, rfl⟩ := Prod.mk.inj (Option.some.inj h)
        exact ⟨longest_name hname, by simp [chars]⟩
      · split at h
        · cases h
        · rename_i hne
          obtain ⟨rfl, rfl⟩ := Prod.mk.inj (Option.some.inj h)
          have hlongest := longest_number hne
          exact ⟨hlongest, (List.prefix_iff_eq_append.mp hlongest.2.1).symm⟩

/-- Where a lexeme stands, one is read. -/
theorem read?_ne_none (hm : m.WellFormed) (hpre : m.chars <+: cs) : read? cs ≠ none := by
  cases cs with
  | nil => exact absurd (List.prefix_nil.mp hpre) hm.chars_ne_nil
  | cons c cs =>
    rcases hm.head hpre with hsign | ⟨t, -, hname, -⟩ | ⟨t, rfl, ht, -⟩
    · simp [read?, hsign]
    · rw [read?]
      split
      · simp
      · simp [hname]
    · rw [read?]
      split
      · simp
      · split
        · simp
        · split
          · rename_i hnil
            -- `longest` takes at least the number that stands here
            have := Numeral.length_le_longest ht hpre
            rw [hnil] at this
            cases this
          · simp

/-- The text of a lexeme tells which lexeme it is. -/
theorem WellFormed.eq_of_chars_eq (hl : l.WellFormed) (hm : m.WellFormed) (h : l.chars = m.chars) :
    l = m := by
  -- both lexemes start with the same character, which tells their kind
  obtain ⟨c, cs, hcs⟩ := List.exists_cons_of_ne_nil hl.chars_ne_nil
  have hlpre : l.chars <+: c :: cs := hcs ▸ List.prefix_rfl
  have hmpre : m.chars <+: c :: cs := h ▸ hlpre
  rcases hl.head hlpre with hsign | ⟨t, rfl, hname, -⟩ | ⟨t, rfl, -, hnumeral⟩
  · have hstart := not_start_of_ofSign? hsign
    rcases hm.head hmpre with hsign' | ⟨t, -, hname, -⟩ | ⟨t, -, -, hnumeral⟩
    · exact Option.some.inj (hsign.symm.trans hsign')
    · rw [hstart.1] at hname
      cases hname
    · exact absurd hnumeral hstart.2
  · rcases hm.head hmpre with hsign' | ⟨t', rfl, -⟩ | ⟨t', -, -, hnumeral⟩
    · rw [(not_start_of_ofSign? hsign').1] at hname
      cases hname
    · exact congrArg name h
    · exact absurd hnumeral (not_isNumeralStart_of_isNameStart hname)
  · rcases hm.head hmpre with hsign' | ⟨t', -, hname, -⟩ | ⟨t', rfl, -, -⟩
    · exact absurd hnumeral (not_start_of_ofSign? hsign').2
    · exact absurd hnumeral (not_isNumeralStart_of_isNameStart hname)
    · exact congrArg number h

/-- At most one lexeme is the longest at the head of a text. -/
theorem Longest.unique (hl : l.Longest cs) (hm : m.Longest cs) : l = m := by
  obtain ⟨hlwf, hlpre, hlmax⟩ := hl
  obtain ⟨hmwf, hmpre, hmmax⟩ := hm
  -- of two prefixes of a text, neither of them longer, each is the other
  have hpre := List.prefix_of_prefix_length_le hlpre hmpre (hmmax l hlwf hlpre)
  exact hlwf.eq_of_chars_eq hmwf (hpre.eq_of_length_le (hlmax m hmwf hmpre))

/-- The lexeme read at the head of a text is the longest one there. -/
theorem read?_eq_some_iff : read? cs = some (l, rest) ↔ l.Longest cs ∧ cs = l.chars ++ rest := by
  refine ⟨longest_of_read?, ?_⟩
  rintro ⟨hl, hcs⟩
  cases hread : read? cs with
  | none => exact absurd hread (read?_ne_none hl.1 hl.2.1)
  | some found =>
    obtain ⟨m, behind⟩ := found
    obtain ⟨hm, hcs'⟩ := longest_of_read? hread
    obtain rfl := hl.unique hm
    rw [List.append_cancel_left (hcs.symm.trans hcs')]

/-- No lexeme is read exactly where none that the rules allow stands. -/
theorem read?_eq_none_iff : read? cs = none ↔ ∀ m : Lexeme, m.WellFormed → ¬m.chars <+: cs := by
  constructor
  · exact fun h m hm hpre => read?_ne_none hm hpre h
  · intro h
    cases hread : read? cs with
    | none => rfl
    | some found =>
      obtain ⟨hm, -⟩ := longest_of_read? hread
      exact absurd hm.2.1 (h _ hm.1)

/-! ### Spaces -/

/-- No lexeme holds a space. -/
theorem WellFormed.not_isSpace (hl : l.WellFormed) (hmem : c ∈ l.chars) : ¬isSpace c = true := by
  intro hc
  have hspace : (c = ' ' ∨ c = '\t') ∨ c = '\r' := by simpa [isSpace] using hc
  cases l with
  | number text =>
    obtain ⟨m, x, hm, hx, rfl⟩ := Numeral.exists_append_of_isNumeral hl
    rcases List.mem_append.mp hmem with hmem | hmem
    · have hclass := Numeral.isDigit_or_eq_point hm c hmem
      rcases hspace with (rfl | rfl) | rfl <;> exact absurd hclass (by decide)
    · rcases hx with rfl | hx
      · cases hmem
      · have hclass := hx.mem_cases c hmem
        rcases hspace with (rfl | rfl) | rfl <;> exact absurd hclass (by decide)
  | name text =>
    obtain ⟨d, t, rfl, hd, ht⟩ := hl
    have hclass : isNameStart c = true ∨ isNameRest c = true := by
      rcases List.mem_cons.mp hmem with rfl | hmem
      · exact .inl hd
      · exact .inr (ht c hmem)
    rcases hspace with (rfl | rfl) | rfl <;> exact absurd hclass (by decide)
  | additive sign =>
    cases sign <;> obtain rfl := List.mem_singleton.mp hmem <;> exact absurd hc (by decide)
  | multiplicative sign =>
    cases sign <;> obtain rfl := List.mem_singleton.mp hmem <;> exact absurd hc (by decide)
  | _ =>
    obtain rfl := List.mem_singleton.mp hmem
    exact absurd hc (by decide)

/-- No lexeme starts with a space. -/
theorem not_longest_of_isSpace (hc : isSpace c = true) : ¬l.Longest (c :: cs) := by
  rintro ⟨hl, hpre, -⟩
  obtain ⟨d, t, hd⟩ := List.exists_cons_of_ne_nil hl.chars_ne_nil
  rw [hd] at hpre
  obtain rfl := (List.cons_prefix_cons.mp hpre).1
  exact hl.not_isSpace (by rw [hd]; exact List.mem_cons_self) hc

end Lexeme

namespace Token

variable {start : Nat} {cs : List Char} {ts us : List Token}

/-! ### Lines -/

theorem scans_nil : Scans start [] ts ↔ ts = [] := by
  constructor
  · intro h
    cases h with
    | done => rfl
    | token hl hcs _ =>
      have hnil := (List.append_eq_nil_iff.mp hcs.symm).1
      exact absurd hnil hl.1.chars_ne_nil
  · rintro rfl
    exact .done

variable {c : Char}

theorem scans_space (hc : isSpace c = true) :
    Scans start (c :: cs) ts ↔ Scans (start + c.utf8Size) cs ts := by
  constructor
  · intro h
    cases h with
    | space _ h => exact h
    | token hl _ _ => exact absurd hl (Lexeme.not_longest_of_isSpace hc)
  · exact .space hc

theorem scans_lexeme (hc : ¬isSpace c = true) :
    Scans start (c :: cs) ts ↔
      ∃ l rest us, Lexeme.read? (c :: cs) = some (l, rest) ∧ ts = ⟨l, start⟩ :: us ∧
        Scans (start + Text.byteLength l.chars) rest us := by
  constructor
  · intro h
    cases h with
    | space hspace _ => exact absurd hspace hc
    | token hl hcs h => exact ⟨_, _, _, Lexeme.read?_eq_some_iff.mpr ⟨hl, hcs⟩, rfl, h⟩
  · rintro ⟨l, rest, us, hread, rfl, h⟩
    obtain ⟨hl, hcs⟩ := Lexeme.read?_eq_some_iff.mp hread
    exact .token hl hcs h

/-- Scanning puts the tokens of the text behind those already read. -/
theorem scan_eq_ok_iff {read : List Token} :
    scan read start cs = .ok ts ↔ ∃ us, ts = read.reverse ++ us ∧ Scans start cs us := by
  -- on the text; `read` holds the tokens before it, last first
  fun_induction scan read start cs with
  | case1 read start => simp [scans_nil, eq_comm]
  | case2 read start c cs hc ih => rw [ih]; simp only [scans_space hc]
  | case3 read start c cs hc hnone => simp [scans_lexeme hc, hnone]
  | case4 read start c cs hc l rest hread hlt ih =>
    rw [ih]
    constructor
    · rintro ⟨us, rfl, h⟩
      exact ⟨⟨l, start⟩ :: us, by simp, (scans_lexeme hc).mpr ⟨l, rest, us, hread, rfl, h⟩⟩
    · rintro ⟨us, rfl, h⟩
      obtain ⟨l', rest', us, hread', rfl, h⟩ := (scans_lexeme hc).mp h
      obtain ⟨rfl, rfl⟩ := Prod.mk.inj (Option.some.inj (hread.symm.trans hread'))
      exact ⟨us, by simp, h⟩

/-- The tokens that are read are the tokens of the line. -/
theorem ofLine_eq_ok_iff {line : String} : ofLine line = .ok ts ↔ Lexes line ts := by
  rw [ofLine, scan_eq_ok_iff, Lexes]
  simp

/-- A text is cut into tokens in one way only. -/
theorem Scans.unique (h : Scans start cs ts) (h' : Scans start cs us) : ts = us := by
  have hts : scan [] start cs = .ok ts := scan_eq_ok_iff.mpr ⟨ts, rfl, h⟩
  have hus : scan [] start cs = .ok us := scan_eq_ok_iff.mpr ⟨us, rfl, h'⟩
  exact Except.ok.inj (hts.symm.trans hus)

end Token

end ExprForest

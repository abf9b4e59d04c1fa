import ExprForest.Proofs.Lexical.Reading

namespace ExprForest

/-!
# Texts put together

How a text is cut into lexemes where another text follows it.  Numbers and names reach as far as they can,
so that two texts side by side may be cut in another way than each by itself; a character that no number
and no name holds keeps them apart.

* `Lexeme.Breaks` — such characters: spaces, parentheses and commas;
* `Lexeme.Longest.append` — they end the longest lexeme;
* `Lexeme.Cuts` — how a text is cut into lexemes, wherever it stands in its line, with
  `Token.Scans.cuts` and `Lexeme.Cuts.exists_scans` for the tokens of a line;
* `Lexeme.Cuts.append`, `Lexeme.Cuts.sign` — texts side by side, and a sign before a text.
-/

variable {start : Nat} {c : Char} {cs rest : List Char} {l : Lexeme} {ls ms : List Lexeme}

namespace Lexeme

/-! ### Characters between lexemes -/

/-- Whether a character stands in no lexeme, or in one that consists of it alone. -/
def Breaks (c : Char) : Prop :=
  ∀ m : Lexeme, m.WellFormed → c ∈ m.chars → m.chars = [c]

theorem breaks_of_isSpace (hc : isSpace c = true) : Breaks c :=
  fun _ hm hmem => absurd hc (hm.not_isSpace hmem)

/-- A digit may stand in a name. -/
theorem isNameRest_of_isDigit (hc : c.isDigit = true) : isNameRest c = true := by
  simp [isNameRest, Char.isAlphanum, hc]

/-- The characters of numbers and names are letters, digits, `_`, points and the signs of powers. -/
theorem breaks_of_not_inner (hstart : isNameStart c = false) (hrest : isNameRest c = false)
    (hpoint : c ≠ '.') (hsign : ¬(c = '+' ∨ c = '-')) : Breaks c := by
  have hdigit : ¬c.isDigit = true := by
    intro hdigit
    rw [isNameRest_of_isDigit hdigit] at hrest
    cases hrest
  intro l hl hmem
  -- the characters of numbers and names are excluded one kind after the other
  cases l with
  | number text =>
    obtain ⟨m, x, hm, hx, rfl⟩ := Numeral.exists_append_of_isNumeral hl
    rcases List.mem_append.mp hmem with hmem | hmem
    · rcases Numeral.isDigit_or_eq_point hm c hmem with h | h
      · exact absurd h hdigit
      · exact absurd h hpoint
    · rcases hx with rfl | hx
      · cases hmem
      · rcases hx.mem_cases c hmem with h | rfl | rfl | h
        · exact absurd h hdigit
        · exact absurd hrest (by decide)
        · exact absurd hrest (by decide)
        · exact absurd h hsign
  | name text =>
    obtain ⟨d, t, rfl, hd, ht⟩ := hl
    rcases List.mem_cons.mp hmem with rfl | hmem
    · rw [hd] at hstart
      cases hstart
    · rw [ht c hmem] at hrest
      cases hrest
  | additive sign => cases sign <;> rw [List.mem_singleton.mp hmem] <;> rfl
  | multiplicative sign => cases sign <;> rw [List.mem_singleton.mp hmem] <;> rfl
  | _ =>
    rw [List.mem_singleton.mp hmem]
    rfl

theorem breaks_openParen : Breaks '(' :=
  breaks_of_not_inner rfl rfl (by decide) (by decide)

theorem breaks_closeParen : Breaks ')' :=
  breaks_of_not_inner rfl rfl (by decide) (by decide)

theorem breaks_comma : Breaks ',' :=
  breaks_of_not_inner rfl rfl (by decide) (by decide)

/-! ### Longest lexemes -/

/-- A lexeme is the longest one in its own text. -/
theorem WellFormed.longest_chars (hl : l.WellFormed) : l.Longest l.chars :=
  ⟨hl, List.prefix_rfl, fun _ _ hpre => hpre.length_le⟩

/-- A character that stands in no longer lexeme ends the longest one. -/
theorem Longest.append (hl : l.Longest cs) (hc : Breaks c) (rest : List Char) :
    l.Longest (cs ++ c :: rest) := by
  obtain ⟨hwf, hpre, hmax⟩ := hl
  refine ⟨hwf, hpre.trans (List.prefix_append _ _), ?_⟩
  intro m hm hmpre
  rcases Nat.lt_or_ge cs.length m.chars.length with hlt | hle
  · -- a lexeme that goes on behind the text holds the character, and hence is nothing else
    have hupto : cs ++ [c] <+: m.chars := by
      apply List.prefix_of_prefix_length_le _ hmpre
      · rw [List.length_append, List.length_singleton]
        exact hlt
      · simp
    have hmem : c ∈ m.chars := hupto.subset (by simp)
    have hone := congrArg List.length (hc m hm hmem)
    rw [List.length_singleton] at hone
    have hpos := List.length_pos_iff.mpr hwf.chars_ne_nil
    omega
  · exact hmax m hm (List.prefix_of_prefix_length_le hmpre (List.prefix_append _ _) hle)

/-! ### Cutting a text -/

/-- How a text is cut into lexemes, wherever it stands in its line. -/
inductive Cuts : List Char → List Lexeme → Prop where
  /-- The end of the text. -/
  | done :
      Cuts [] []
  /-- A space, a tab or a carriage return. -/
  | space {c : Char} {cs : List Char} {ls : List Lexeme} :
      isSpace c = true → Cuts cs ls →
      Cuts (c :: cs) ls
  /-- The longest lexeme, and what follows it. -/
  | lexeme {l : Lexeme} {rest : List Char} {ls : List Lexeme} :
      l.Longest (l.chars ++ rest) → Cuts rest ls →
      Cuts (l.chars ++ rest) (l :: ls)

/-- The tokens of a text that is cut into some lexemes. -/
theorem Cuts.exists_scans (h : Cuts cs ls) (start : Nat) :
    ∃ ts, Token.Scans start cs ts ∧ ts.map Token.lexeme = ls := by
  induction h generalizing start with
  | done => exact ⟨[], .done, rfl⟩
  | space hc _ ih =>
    obtain ⟨ts, hts, hmap⟩ := ih (start + Char.utf8Size _)
    exact ⟨ts, .space hc hts, hmap⟩
  | @lexeme l _ _ hl _ ih =>
    obtain ⟨ts, hts, hmap⟩ := ih (start + Text.byteLength l.chars)
    exact ⟨⟨l, start⟩ :: ts, .token hl rfl hts, by rw [List.map_cons, hmap]⟩

/-- The text of a lexeme is cut into this lexeme alone. -/
theorem WellFormed.cuts_chars (hl : l.WellFormed) : Cuts l.chars [l] := by
  have hlongest : l.Longest (l.chars ++ []) := by
    rw [List.append_nil]
    exact hl.longest_chars
  have hcuts := Cuts.lexeme hlongest .done
  rwa [List.append_nil] at hcuts

/-- A sign before a text. -/
theorem Cuts.sign (hsign : ofSign? c = some l) (h : Cuts rest ls) : Cuts (c :: rest) (l :: ls) := by
  have hl : l.Longest (l.chars ++ rest) := by
    rw [chars_of_ofSign? hsign]
    exact longest_sign hsign
  have hcuts := Cuts.lexeme hl h
  rw [chars_of_ofSign? hsign] at hcuts
  exact hcuts

/-- Two texts side by side, the second of which starts with a character that ends lexemes. -/
theorem Cuts.append (h : Cuts cs ls) (hc : Breaks c) (hrest : Cuts (c :: rest) ms) :
    Cuts (cs ++ c :: rest) (ls ++ ms) := by
  -- on the first text; its last lexeme ends at the character
  induction h with
  | done => exact hrest
  | space hspace _ ih => exact .space hspace ih
  | @lexeme l _ _ hl _ ih =>
    have hlonger := hl.append hc rest
    rw [List.append_assoc] at hlonger ⊢
    exact .lexeme hlonger ih

end Lexeme

/-- The tokens of a text tell how it is cut. -/
theorem Token.Scans.cuts {ts : List Token} (h : Token.Scans start cs ts) :
    Lexeme.Cuts cs (ts.map Token.lexeme) := by
  induction h with
  | done => exact .done
  | space hc _ ih => exact .space hc ih
  | token hl hcs _ ih =>
    subst hcs
    exact .lexeme hl ih

end ExprForest

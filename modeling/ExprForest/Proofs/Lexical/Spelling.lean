import ExprForest.Proofs.Lexical.Seams

namespace ExprForest

/-!
# Spelling lexemes

Every list of well-formed lexemes is the lexeme list of some line: the lexemes with a space behind each.

* `Lexeme.spell` — the text of such a line;
* `Lexeme.cuts_spell` — it is cut into the lexemes again, since a space ends the longest lexeme;
* `Lexeme.exists_line` — the line that spells some lexemes, and its tokens.
-/

namespace Lexeme

variable {ls : List Lexeme}

/-- The texts of some lexemes, with a space behind each. -/
def spell : List Lexeme → List Char
  | [] => []
  | l :: ls => l.chars ++ ' ' :: spell ls

/-- Well-formed lexemes are read back from their spelling. -/
theorem cuts_spell (h : ∀ l ∈ ls, l.WellFormed) : Cuts (spell ls) ls := by
  induction ls with
  | nil => exact .done
  | cons l ls ih =>
    obtain ⟨hl, hls⟩ := List.forall_mem_cons.mp h
    have hspace : isSpace ' ' = true := rfl
    have hlongest := hl.longest_chars.append (breaks_of_isSpace hspace) (spell ls)
    exact .lexeme hlongest (.space hspace (ih hls))

/-- Well-formed lexemes are the lexemes of some line. -/
theorem exists_line (h : ∀ l ∈ ls, l.WellFormed) :
    ∃ line ts, Token.Lexes line ts ∧ ts.map Token.lexeme = ls := by
  obtain ⟨ts, hts, hmap⟩ := (cuts_spell h).exists_scans 0
  refine ⟨String.ofList (spell ls), ts, ?_, hmap⟩
  rwa [Token.Lexes, String.toList_ofList]

end Lexeme

/-- The lexemes of a line are well-formed. -/
theorem Token.Scans.wellFormed {start : Nat} {cs : List Char} {ts : List Token}
    (h : Token.Scans start cs ts) : ∀ t ∈ ts, t.lexeme.WellFormed := by
  induction h with
  | done => exact fun _ ht => absurd ht List.not_mem_nil
  | space _ _ ih => exact ih
  | token hl _ _ ih =>
    intro t ht
    rcases List.mem_cons.mp ht with rfl | ht
    · exact hl.1
    · exact ih t ht

end ExprForest

import ExprForest.Proofs.Lexical.Seams
import ExprForest.Proofs.Statement.Failures

namespace ExprForest

/-!
# Spaces between lexemes

Spaces, tabs and carriage returns may be put before the first lexeme of a line, between two of them and
behind the last one.  The line keeps its lexemes, and hence its tree or its failure.

* `Lexeme.Padded` — a text with further spaces between its lexemes;
* `Lexeme.Padded.spaceless_start`, `Lexeme.Padded.longest` — what stands behind a lexeme starts with no
  more than before, so that no lexeme gets longer;
* `Lexeme.Padded.cuts` — the text is cut into the same lexemes;
* `Token.SamePlace` — tokens at the same index of two lists, or the end of both, with
  `Token.samePlace_firstDeeper?` and `Statement.run_alike` for the passes over the tokens;
* `Standard.Engine.spaces_insignificant` — put together for the engines of both lines.
-/

variable {c : Char} {cs ds w : List Char} {l : Lexeme} {ls : List Lexeme}

namespace Lexeme

/-! ### Further spaces -/

/-- Whether a text results from another one by putting spaces around its lexemes, before the first,
    between two of them or behind the last. -/
inductive Padded : List Lexeme → List Char → List Char → Prop where
  /-- The end of both texts. -/
  | done :
      Padded [] [] []
  /-- A space that was there before. -/
  | keep {c : Char} {ls : List Lexeme} {cs ds : List Char} :
      isSpace c = true → Padded ls cs ds →
      Padded ls (c :: cs) (c :: ds)
  /-- A space that is put in. -/
  | insert {c : Char} {ls : List Lexeme} {cs ds : List Char} :
      isSpace c = true → Padded ls cs ds →
      Padded ls cs (c :: ds)
  /-- A lexeme. -/
  | lexeme {l : Lexeme} {ls : List Lexeme} {cs ds : List Char} :
      Padded ls cs ds →
      Padded (l :: ls) (l.chars ++ cs) (l.chars ++ ds)

/-- What starts with a space has no other prefix without spaces than the empty one. -/
theorem eq_nil_of_prefix_space (hc : isSpace c = true) (hw : ∀ d ∈ w, ¬isSpace d = true)
    (hpre : w <+: c :: cs) : w = [] := by
  cases w with
  | nil => rfl
  | cons d w =>
    obtain ⟨rfl, -⟩ := List.cons_prefix_cons.mp hpre
    exact absurd hc (hw d List.mem_cons_self)

/-- Further spaces make no further prefixes without spaces. -/
theorem Padded.spaceless_start (h : Padded ls cs ds) (hw : ∀ d ∈ w, ¬isSpace d = true)
    (hpre : w <+: ds) : w <+: cs := by
  induction h generalizing w with
  | done => exact hpre
  | keep hc _ _ =>
    rw [eq_nil_of_prefix_space hc hw hpre]
    exact List.nil_prefix
  | insert hc _ _ =>
    rw [eq_nil_of_prefix_space hc hw hpre]
    exact List.nil_prefix
  | @lexeme l ls cs ds _ ih =>
    -- the prefix ends inside the lexeme, or it is the lexeme with a prefix of what follows
    rcases List.prefix_or_prefix_of_prefix hpre (List.prefix_append l.chars ds) with hinside | hbeyond
    · exact hinside.trans (List.prefix_append _ _)
    · obtain ⟨v, rfl⟩ := hbeyond
      have hv : ∀ d ∈ v, ¬isSpace d = true := fun d hd => hw d (List.mem_append_right _ hd)
      exact (List.prefix_append_right_inj _).mpr (ih hv ((List.prefix_append_right_inj _).mp hpre))

/-- The longest lexeme stays the longest one. -/
theorem Padded.longest (h : Padded ls cs ds) (hl : l.Longest (l.chars ++ cs)) :
    l.Longest (l.chars ++ ds) := by
  obtain ⟨hwf, -, hmax⟩ := hl
  refine ⟨hwf, List.prefix_append _ _, ?_⟩
  intro m hm hpre
  exact hmax m hm ((Padded.lexeme h).spaceless_start (fun _ hd => hm.not_isSpace hd) hpre)

/-! ### Cutting the padded text -/

/-- How a text behind a space is cut. -/
theorem Cuts.of_space (hc : isSpace c = true) (h : Cuts (c :: cs) ls) : Cuts cs ls := by
  generalize htext : c :: cs = text at h
  cases h with
  | done => cases htext
  | space _ h =>
    obtain ⟨rfl, rfl⟩ := List.cons.inj htext
    exact h
  | lexeme hl _ =>
    rw [← htext] at hl
    exact absurd hl (not_longest_of_isSpace hc)

/-- How a text behind its first lexeme is cut. -/
theorem Cuts.of_lexeme (hl : l.WellFormed) (h : Cuts (l.chars ++ cs) (l :: ls)) :
    l.Longest (l.chars ++ cs) ∧ Cuts cs ls := by
  generalize htext : l.chars ++ cs = text at h
  cases h with
  | @space c rest _ hc _ =>
    -- no lexeme starts with a space
    obtain ⟨d, t, hd⟩ := List.exists_cons_of_ne_nil hl.chars_ne_nil
    rw [hd] at htext
    obtain ⟨rfl, -⟩ := List.cons.inj htext
    exact absurd hc (hl.not_isSpace (by rw [hd]; exact List.mem_cons_self))
  | lexeme hlongest h =>
    obtain rfl := List.append_cancel_left htext
    exact ⟨hlongest, h⟩

/-- The lexemes of a text are lexemes that the rules allow. -/
theorem Cuts.wellFormed (h : Cuts cs ls) : ∀ m ∈ ls, m.WellFormed := by
  induction h with
  | done => nofun
  | space _ _ ih => exact ih
  | lexeme hl _ ih =>
    intro m hm
    rcases List.mem_cons.mp hm with rfl | hm
    · exact hl.1
    · exact ih m hm

/-- **Same lexemes.**  With further spaces between its lexemes, a text is cut as before. -/
theorem Padded.cuts (h : Padded ls cs ds) (hcuts : Cuts cs ls) : Cuts ds ls := by
  induction h with
  | done => exact hcuts
  | keep hc _ ih => exact .space hc (ih (hcuts.of_space hc))
  | insert hc _ ih => exact .space hc (ih hcuts)
  | lexeme hrest ih =>
    obtain ⟨hl, hcuts'⟩ := hcuts.of_lexeme (hcuts.wellFormed _ List.mem_cons_self)
    exact .lexeme (hrest.longest hl) (ih hcuts')

end Lexeme

/-! ### Tokens at the same place -/

namespace Token

variable {limit depth : Nat} {t t' : Token} {ts ts' : List Token} {found found' : Option Token}

/-- Whether two tokens stand at the same index of two lists, or none is meant in either. -/
inductive SamePlace (ts ts' : List Token) : Option Token → Option Token → Prop where
  | atEnd :
      SamePlace ts ts' none none
  | atToken {i : Nat} {t t' : Token} :
      ts[i]? = some t → ts'[i]? = some t' → t.lexeme = t'.lexeme →
      SamePlace ts ts' (some t) (some t')

theorem SamePlace.cons (h : SamePlace ts ts' found found') (t t' : Token) :
    SamePlace (t :: ts) (t' :: ts') found found' := by
  cases h with
  | atEnd => exact .atEnd
  | @atToken i _ _ ht ht' hsame =>
    have hnext : (t :: ts)[i + 1]? = some _ := ht
    have hnext' : (t' :: ts')[i + 1]? = some _ := ht'
    exact .atToken hnext hnext' hsame

/-- Two lists start with tokens at the same place. -/
theorem samePlace_head (hsame : t.lexeme = t'.lexeme) :
    SamePlace (t :: ts) (t' :: ts') (some t) (some t') := by
  have hhead : (t :: ts)[0]? = some t := rfl
  have hhead' : (t' :: ts')[0]? = some t' := rfl
  exact .atToken hhead hhead' hsame

/-- The parenthesis that nests too deep is told by the lexemes. -/
theorem samePlace_firstDeeper? (h : ts.map lexeme = ts'.map lexeme) (limit depth : Nat) :
    SamePlace ts ts' (firstDeeper? limit depth ts) (firstDeeper? limit depth ts') := by
  induction ts generalizing ts' depth with
  | nil =>
    obtain rfl := List.map_eq_nil_iff.mp h.symm
    exact .atEnd
  | cons t ts ih =>
    obtain ⟨t', ts', rfl, hsame, hrest⟩ := List.map_eq_cons_iff.mp h.symm
    simp only [firstDeeper?, hsame]
    by_cases hdeeper : t.lexeme = .openParen ∧ limit < t.lexeme.depthAfter depth
    · rw [if_pos hdeeper, if_pos hdeeper]
      exact samePlace_head hsame.symm
    · rw [if_neg hdeeper, if_neg hdeeper]
      exact (ih hrest.symm _).cons t t'

end Token

namespace Statement

open Token (SamePlace)

variable {limit : Nat} {line line' : String} {ts ts' : List Token} {found found' : Option Token}

/-- The reader tells tokens by their lexemes: it builds the same tree or stops for the same reason at the
    same place. -/
theorem run_alike (s : State) (h : ts.map Token.lexeme = ts'.map Token.lexeme) :
    (∃ t, run s ts = .ok t ∧ run s ts' = .ok t) ∨
      ∃ stop found found', SamePlace ts ts' found found' ∧
        run s ts = .error ⟨stop, found⟩ ∧ run s ts' = .error ⟨stop, found'⟩ := by
  induction ts generalizing ts' s with
  | nil =>
    obtain rfl := List.map_eq_nil_iff.mp h.symm
    cases hfinish : s.finish with
    | ok t => exact .inl ⟨t, by rw [run, hfinish], by rw [run, hfinish]⟩
    | error stop => exact .inr ⟨stop, none, none, .atEnd, by rw [run, hfinish], by rw [run, hfinish]⟩
  | cons t ts ih =>
    obtain ⟨t', ts', rfl, hsame, hrest⟩ := List.map_eq_cons_iff.mp h.symm
    cases hstep : s.step t.lexeme with
    | error stop =>
      have hstep' : s.step t'.lexeme = .error stop := by rw [hsame, hstep]
      exact .inr ⟨stop, some t, some t', Token.samePlace_head hsame.symm, by rw [run, hstep],
        by rw [run, hstep']⟩
    | ok s' =>
      have hstep' : s.step t'.lexeme = .ok s' := by rw [hsame, hstep]
      rw [run, run, hstep, hstep']
      rcases ih s' hrest.symm with htree | ⟨stop, found, found', hplace, hrun, hrun'⟩
      · exact .inl htree
      · exact .inr ⟨stop, found, found', hplace.cons t t', hrun, hrun'⟩

/-- Whether two lines with these tokens have the same tree, or fail as syntax errors with the same message,
    which mark as many bytes at the token of the same index or the end of both lines. -/
inductive FareAlike (line line' : String) (ts ts' : List Token) :
    Except EngineError Tree → Except EngineError Tree → Prop where
  | tree (t : Tree) :
      FareAlike line line' ts ts' (.ok t) (.ok t)
  | atToken {message : String} {i : Nat} {t t' : Token} (length : Nat) :
      ts[i]? = some t → ts'[i]? = some t' →
      FareAlike line line' ts ts'
        (.error (.syntaxError message (.cover line t.start (t.start + length))))
        (.error (.syntaxError message (.cover line' t'.start (t'.start + length))))
  | atEnd (message : String) :
      FareAlike line line' ts ts'
        (.error (.syntaxError message (.point line line.utf8ByteSize)))
        (.error (.syntaxError message (.point line' line'.utf8ByteSize)))

/-- Rejections for the same reason at the same place. -/
theorem fareAlike_failure {stop : Stop} (hplace : SamePlace ts ts' found found')
    (hstop : ∀ text, stop ≠ .notANumber text) :
    FareAlike line line' ts ts' (.error (Rejection.failure line ⟨stop, found⟩))
      (.error (Rejection.failure line' ⟨stop, found'⟩)) := by
  rw [Rejection.failure_eq hstop, Rejection.failure_eq hstop]
  cases hplace with
  | atEnd => exact .atEnd _
  | @atToken i t t' ht ht' hsame =>
    have hfound : foundText (some t') = foundText (some t) := by simp only [foundText, hsame]
    rw [hfound]
    -- an empty span at the token
    have halike := @FareAlike.atToken line line' ts ts'
      ("expected " ++ stop.expected ++ ", found " ++ foundText (some t)) i t t' 0 ht ht'
    rwa [Nat.add_zero, Nat.add_zero, Span.cover_self, Span.cover_self] at halike

/-- Lines with the same lexemes fare alike under every limit. -/
theorem outcome_alike (hlex : Token.Lexes line ts) (hlex' : Token.Lexes line' ts')
    (hsame : ts.map Token.lexeme = ts'.map Token.lexeme) (limit : Nat) :
    FareAlike line line' ts ts' (outcome limit line) (outcome limit line') := by
  rw [outcome, outcome, Token.ofLine_eq_ok_iff.mpr hlex, Token.ofLine_eq_ok_iff.mpr hlex']
  simp only
  -- first the nesting of the parentheses, then the grammar
  have hdeeper := Token.samePlace_firstDeeper? hsame limit 0
  generalize Token.firstDeeper? limit 0 ts = found at hdeeper ⊢
  generalize Token.firstDeeper? limit 0 ts' = found' at hdeeper ⊢
  cases hdeeper with
  | atToken ht ht' _ => exact .atToken 1 ht ht'
  | atEnd =>
    simp only [reduce_of_lexes hlex, reduce_of_lexes hlex']
    rcases run_alike .initial hsame with ⟨t, hrun, hrun'⟩ | ⟨stop, found, found', hplace, hrun, hrun'⟩
    · have hread : read ts = .ok t := hrun
      have hread' : read ts' = .ok t := hrun'
      rw [hread, hread']
      exact .tree t
    · have hread : read ts = .error ⟨stop, found⟩ := hrun
      have hread' : read ts' = .error ⟨stop, found'⟩ := hrun'
      rw [hread, hread']
      exact fareAlike_failure hplace (stop_ne_notANumber hlex hread)

end Statement

namespace Standard.Engine

/-- **Spaces between lexemes mean nothing.**  If spaces, tabs and carriage returns are put into a line
    before its first token, between tokens or behind the last one, the line that results has the same
    tokens, and under every limit the engines of both lines fare alike: they give the same tree, or they
    fail with the same message at the same token or at the end of both lines. -/
theorem spaces_insignificant {line line' : String} {ts : List Token} (hlex : Token.Lexes line ts)
    (hpadded : Lexeme.Padded (ts.map Token.lexeme) line.toList line'.toList) :
    ∃ ts', Token.Lexes line' ts' ∧ ts'.map Token.lexeme = ts.map Token.lexeme ∧
      ∀ limit, Statement.FareAlike line line' ts ts'
        (run ⟨line, limit, .fresh⟩).1 (run ⟨line', limit, .fresh⟩).1 := by
  obtain ⟨ts', hlex', hsame⟩ := (hpadded.cuts hlex.cuts).exists_scans 0
  exact ⟨ts', hlex', hsame, Statement.outcome_alike hlex hlex' hsame.symm⟩

/-- The call in `f(1` is not closed, and neither is the one with spaces around its tokens. -/
theorem spaces_insignificant_open_call :
    Token.Lexes "f(1" [⟨.name ['f'], 0⟩, ⟨.openParen, 1⟩, ⟨.number ['1'], 2⟩] ∧
      ∃ ts', Token.Lexes " f\t(1\r " ts' ∧
        ts'.map Token.lexeme = [.name ['f'], .openParen, .number ['1']] ∧
        ∀ limit, Statement.FareAlike "f(1" " f\t(1\r "
          [⟨.name ['f'], 0⟩, ⟨.openParen, 1⟩, ⟨.number ['1'], 2⟩] ts'
          (run ⟨"f(1", limit, .fresh⟩).1 (run ⟨" f\t(1\r ", limit, .fresh⟩).1 := by
  have hlex : Token.Lexes "f(1" [⟨.name ['f'], 0⟩, ⟨.openParen, 1⟩, ⟨.number ['1'], 2⟩] := by
    rw [← Token.ofLine_eq_ok_iff]
    cbv
  have hend : Lexeme.Padded [] [] ['\r', ' '] := .insert rfl (.insert rfl .done)
  have hcall : Lexeme.Padded [.openParen, .number ['1']] ['(', '1'] ['(', '1', '\r', ' '] :=
    .lexeme (.lexeme hend)
  have hpadded : Lexeme.Padded [.name ['f'], .openParen, .number ['1']] "f(1".toList
      " f\t(1\r ".toList :=
    .insert rfl (.lexeme (.insert rfl hcall))
  exact ⟨hlex, spaces_insignificant hlex hpadded⟩

end Standard.Engine

end ExprForest

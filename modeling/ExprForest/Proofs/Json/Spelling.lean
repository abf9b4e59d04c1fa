import ExprForest.Proofs.Json.Decisions
import ExprForest.Proofs.Text.Position

namespace ExprForest.Json

/-!
# Strings are read as they are spelled

A string may be written in many ways, since each of its characters has several spellings.  What is read of it
are the characters that it spells.

* `Literal.hexFour_eq_ok_iff` — four digits are read if they are there;
* `Literal.exists_readFrom_of_spellsOne` — a spelling is read as its character;
* `Literal.exists_spells` — only what is spelled is read: there is no lone surrogate;
* `Literal.decides_read` — the string that is read is the one that is spelled;
* `Grammar.Spells.unique` — no string spells two rows of characters.
-/

open Grammar (IsPiece IsBody SpellsOne Spells)
open Reader (Yields Decides)

variable {ch letter meant a b c d : Char} {cs cs' body spelling text rest : List Char}
  {out s : String} {line column n m : Nat}

namespace Literal

/-! ### Characters -/

theorem readFrom_quote :
    readFrom out ⟨'"' :: cs, line, column⟩ = .done out ⟨cs, line, column + 1⟩ := by
  rw [readFrom]
  rfl

theorem readFrom_plain (hquote : ch ≠ '"') (hbackslash : ch ≠ '\\') (hcontrol : ¬ch.toNat < 0x20) :
    readFrom out ⟨ch :: cs, line, column⟩ =
      readFrom (out.push ch) (Cursor.tail ⟨ch :: cs, line, column⟩) := by
  rw [readFrom]
  simp only [if_neg hquote, if_neg hbackslash, if_neg hcontrol]

theorem readFrom_escape (h : escape ⟨cs, line, column + 1⟩ = .ok (meant, n)) :
    readFrom out ⟨'\\' :: cs, line, column⟩ =
      readFrom (out.push meant) ⟨cs.drop n, line, column + 1 + n⟩ := by
  have htail : Cursor.tail ⟨'\\' :: cs, line, column⟩ = ⟨cs, line, column + 1⟩ := rfl
  rw [readFrom]
  dsimp only
  rw [if_neg (by decide), if_pos rfl, htail, h]
  rfl

/-- A letter behind a backslash. -/
theorem readFrom_letter (h : escape ⟨letter :: cs, line, column + 1⟩ = .ok (meant, 1)) :
    readFrom out ⟨['\\', letter] ++ cs, line, column⟩ =
      readFrom (out.push meant) ⟨cs, line, column + 1 + 1⟩ :=
  readFrom_escape h

/-! ### Escapes -/

/-- The four digits ahead. -/
theorem hexFour_eq_ok_iff : hexFour ⟨text, line, column⟩ = .ok n ↔
    ∃ a b c d more, text = a :: b :: c :: d :: more ∧ hexFour? [a, b, c, d] = some n := by
  constructor
  · intro h
    unfold hexFour at h
    split at h
    · cases h
    · split at h
      · rename_i n' hread
        obtain rfl := Except.ok.inj h
        rcases text with _ | ⟨a, _ | ⟨b, _ | ⟨c, _ | ⟨d, more⟩⟩⟩⟩
        · cases hread
        · cases hread
        · cases hread
        · cases hread
        · exact ⟨a, b, c, d, more, rfl, hread⟩
      · cases h
  · rintro ⟨a, b, c, d, more, rfl, h⟩
    have hread : hexFour? (a :: b :: c :: d :: more) = some n := h
    have hbytes : ¬Text.byteLength [a, b, c, d] < 4 := by
      have ha := a.utf8Size_pos
      have hb := b.utf8Size_pos
      have hc := c.utf8Size_pos
      have hd := d.utf8Size_pos
      simp only [Text.byteLength_cons]
      omega
    unfold hexFour
    simp only [hread]
    exact if_neg hbytes

/-- The second half of a surrogate pair, with its own backslash. -/
theorem trailing_eq_ok_iff : trailing ⟨text, line, column⟩ = .ok n ↔
    ∃ a b c d more, text = '\\' :: 'u' :: a :: b :: c :: d :: more ∧ hexFour? [a, b, c, d] = some n ∧
      isTrailing n = true := by
  have hdigits : ∀ text, trailing ⟨'\\' :: 'u' :: text, line, column⟩ =
      (hexFour ⟨text, line, column + 2⟩).bind fun n =>
        if isTrailing n then .ok n else .error ⟨.fault .loneSurrogate, some ⟨line, column + 6⟩⟩ :=
    fun text => rfl
  constructor
  · intro h
    unfold trailing at h
    split at h
    · cases h
    · cases h
    · rename_i text' htext
      dsimp only at htext
      subst htext
      change (hexFour ⟨text', line, column + 2⟩).bind _ = _ at h
      cases hfour : hexFour ⟨text', line, column + 2⟩ with
      | error e =>
        rw [hfour] at h
        cases h
      | ok m =>
        obtain ⟨a, b, c, d, more, rfl, hread⟩ := hexFour_eq_ok_iff.mp hfour
        rw [hfour] at h
        change (if isTrailing m then Except.ok m else _) = _ at h
        split at h
        · obtain rfl := Except.ok.inj h
          exact ⟨a, b, c, d, more, rfl, hread, ‹_›⟩
        · cases h
    · cases h
    · cases h
  · rintro ⟨a, b, c, d, more, rfl, h, htrailing⟩
    have hfour : hexFour ⟨a :: b :: c :: d :: more, line, column + 2⟩ = .ok n :=
      hexFour_eq_ok_iff.mpr ⟨a, b, c, d, more, rfl, h⟩
    rw [hdigits, hfour]
    exact if_pos htrailing

/-- A letter behind a backslash. -/
theorem escape_of_letter (h : escaped? letter = some meant) :
    escape ⟨letter :: rest, line, column⟩ = .ok (meant, 1) := by
  have hunit : letter ≠ 'u' := by
    rintro rfl
    cases h
  unfold escape
  split
  · contradiction
  · rename_i heq
    cases heq
    exact absurd rfl hunit
  · rename_i heq
    cases heq
    rw [h]

/-- The code unit behind a backslash. -/
theorem escape_of_unit (h : hexFour? [a, b, c, d] = some n) :
    escape ⟨'u' :: a :: b :: c :: d :: rest, line, column⟩ =
      if isTrailing n then .error ⟨.fault .loneSurrogate, some ⟨line, column + 5⟩⟩
      else if isLeading n then
        (trailing ⟨rest, line, column + 5⟩).map fun m =>
          (Char.ofNat (0x10000 + 1024 * (n - 0xd800) + (m - 0xdc00)), 11)
      else .ok (Char.ofNat n, 5) := by
  have hfour : hexFour ⟨a :: b :: c :: d :: rest, line, column + 1⟩ = .ok n :=
    hexFour_eq_ok_iff.mpr ⟨a, b, c, d, rest, rfl, h⟩
  show (unicode ⟨a :: b :: c :: d :: rest, line, column + 1⟩).map _ = _
  rw [unicode, hfour]
  show Except.map _ (if isTrailing n then _ else if isLeading n then _ else _) = _
  split
  · rfl
  · split
    · change Except.map _ ((trailing ⟨rest, line, column + 5⟩).bind _) = _
      cases trailing ⟨rest, line, column + 5⟩ <;> rfl
    · rfl

/-- A code unit is read alone, unless it is half of a surrogate pair: the first half is read together with the
    second. -/
theorem of_escape_unit (hread : hexFour? [a, b, c, d] = some n)
    (h : escape ⟨'u' :: a :: b :: c :: d :: rest, line, column⟩ = .ok (meant, m)) :
    isTrailing n = false ∧ (isLeading n = false ∧ m = 5 ∨
      isLeading n = true ∧ m = 11 ∧ ∃ k, trailing ⟨rest, line, column + 5⟩ = .ok k) := by
  rw [escape_of_unit hread] at h
  split at h
  · cases h
  rename_i htrailing
  refine ⟨Bool.eq_false_of_not_eq_true htrailing, ?_⟩
  split at h
  · rename_i hleading
    cases hsecond : trailing ⟨rest, line, column + 5⟩ with
    | error e =>
      rw [hsecond] at h
      cases h
    | ok k =>
      rw [hsecond] at h
      obtain ⟨-, rfl⟩ := Prod.mk.inj (Except.ok.inj h)
      exact .inr ⟨hleading, rfl, k, rfl⟩
  · rename_i hleading
    obtain ⟨-, rfl⟩ := Prod.mk.inj (Except.ok.inj h)
    exact .inl ⟨Bool.eq_false_of_not_eq_true hleading, rfl⟩

/-! ### What is spelled is read -/

/-- A spelling is read as its character. -/
theorem exists_readFrom_of_spellsOne (h : SpellsOne spelling ch) (out : String) (rest : List Char)
    (line column : Nat) : ∃ line' column', readFrom out ⟨spelling ++ rest, line, column⟩ =
      readFrom (out.push ch) ⟨rest, line', column'⟩ := by
  cases h with
  | plain hquote hbackslash hcontrol =>
    obtain ⟨line', column', htail⟩ := Reader.exists_tail ch rest line column
    exact ⟨line', column', htail ▸ readFrom_plain hquote hbackslash (Nat.not_lt.mpr hcontrol)⟩
  | letter hletter =>
    exact ⟨_, _, readFrom_letter (escape_of_letter hletter)⟩
  | @unit a b c d n hread hleading htrailing =>
    have hescape : escape ⟨'u' :: a :: b :: c :: d :: rest, line, column + 1⟩ = .ok (Char.ofNat n, 5) := by
      rw [escape_of_unit hread, htrailing, hleading]
      rfl
    exact ⟨_, _, readFrom_escape hescape⟩
  | @pair a b c d a' b' c' d' n m hread hleading hread' htrailing =>
    have hfirst : isTrailing n = false := by
      simp only [isLeading, isTrailing, Bool.and_eq_true, Bool.and_eq_false_iff, decide_eq_true_eq,
        decide_eq_false_iff_not] at hleading ⊢
      omega
    have hescape : escape ⟨'u' :: a :: b :: c :: d :: '\\' :: 'u' :: a' :: b' :: c' :: d' :: rest, line,
        column + 1⟩ = .ok (Char.ofNat (0x10000 + 1024 * (n - 0xd800) + (m - 0xdc00)), 11) := by
      rw [escape_of_unit hread, hfirst, hleading,
        trailing_eq_ok_iff.mpr ⟨a', b', c', d', rest, rfl, hread', htrailing⟩]
      rfl
    exact ⟨_, _, readFrom_escape hescape⟩

/-- A string is read up to its closing quote. -/
theorem yields_readFrom_of_spells (h : Spells body cs) (out : String) (rest : List Char) :
    Yields (readFrom out) (body ++ '"' :: rest) (some (out ++ String.ofList cs, rest)) := by
  induction h generalizing out with
  | nil =>
    refine .done fun line column => ⟨line, column + 1, ?_⟩
    rw [List.nil_append, readFrom_quote]
    simp
  | @cons spelling body ch cs hch _ ih =>
    have hpush : out.push ch ++ String.ofList cs = out ++ String.ofList (ch :: cs) := by
      rw [String.push_eq_append, String.append_assoc, String.singleton_eq_ofList,
        ← String.ofList_append]
      rfl
    rw [List.append_assoc, ← hpush]
    exact (ih (out.push ch)).of_eq fun line column => exists_readFrom_of_spellsOne hch out _ line column

/-! ### Only what is spelled is read -/

/-- A body that goes on with a code unit. -/
theorem exists_body_of_unit (h : IsBody body)
    (heq : body ++ '"' :: rest = '\\' :: 'u' :: a :: b :: c :: d :: text) :
    ∃ body', IsBody body' ∧ body = '\\' :: 'u' :: a :: b :: c :: d :: body' := by
  cases h with
  | nil => cases heq
  | @cons piece body hpiece hbody =>
    cases hpiece with
    | plain _ hbackslash _ =>
      exact absurd (List.cons.inj heq).1 hbackslash
    | letter hletter =>
      obtain ⟨rfl, -⟩ := List.cons.inj (List.cons.inj heq).2
      cases hletter
    | unit _ =>
      simp only [List.cons_append, List.nil_append, List.cons.injEq, true_and] at heq
      obtain ⟨rfl, rfl, rfl, rfl, -⟩ := heq
      exact ⟨body, hbody, rfl⟩

/-- What is read behind a backslash. -/
theorem exists_escape_of_readFrom {c : Cursor} (h : readFrom out ⟨'\\' :: text, line, column⟩ = .done s c) :
    ∃ meant n, escape ⟨text, line, column + 1⟩ = .ok (meant, n) ∧
      readFrom (out.push meant) ⟨text.drop n, line, column + 1 + n⟩ = .done s c := by
  cases hescape : escape ⟨text, line, column + 1⟩ with
  | error e =>
    have htail : Cursor.tail ⟨'\\' :: text, line, column⟩ = ⟨text, line, column + 1⟩ := rfl
    rw [readFrom] at h
    dsimp only at h
    rw [if_neg (by decide), if_pos rfl, htail, hescape] at h
    cases h
  | ok y =>
    obtain ⟨meant, n⟩ := y
    exact ⟨meant, n, rfl, readFrom_escape hescape ▸ h⟩

/-- A string that is read spells a row of characters. -/
theorem exists_spells (hbody : IsBody body) {c : Cursor}
    (h : readFrom out ⟨body ++ '"' :: rest, line, column⟩ = .done s c) : ∃ cs, Spells body cs := by
  -- a pair of surrogates is read at once, so the induction is on the length
  induction hn : body.length using Nat.strong_induction_on generalizing body out line column with
  | _ k ih =>
    subst hn
    cases hbody with
    | nil => exact ⟨[], .nil⟩
    | @cons piece body hpiece hbody =>
      cases hpiece with
      | @plain ch hquote hbackslash hcontrol =>
        obtain ⟨line', column', htail⟩ := Reader.exists_tail ch (body ++ '"' :: rest) line column
        rw [List.append_assoc, List.singleton_append,
          readFrom_plain hquote hbackslash (Nat.not_lt.mpr hcontrol), htail] at h
        obtain ⟨cs, hcs⟩ := ih _ (by simp) hbody h rfl
        exact ⟨_, .cons (.plain hquote hbackslash hcontrol) hcs⟩
      | letter hletter =>
        obtain ⟨_, _, hescape, h⟩ := exists_escape_of_readFrom h
        cases (escape_of_letter hletter).symm.trans hescape
        obtain ⟨cs, hcs⟩ := ih _ (by simp) hbody h rfl
        exact ⟨_, .cons (.letter hletter) hcs⟩
      | @unit a b c d n hunit =>
        obtain ⟨_, _, hescape, h⟩ := exists_escape_of_readFrom h
        have hescape : escape ⟨'u' :: a :: b :: c :: d :: (body ++ '"' :: rest), line, column + 1⟩ = _ :=
          hescape
        obtain ⟨htrailing, ⟨hleading, rfl⟩ | ⟨hleading, rfl, m, hsecond⟩⟩ := of_escape_unit hunit hescape
        · obtain ⟨cs, hcs⟩ := ih _ (by simp; omega) hbody h rfl
          exact ⟨_, .cons (.unit hunit hleading htrailing) hcs⟩
        · obtain ⟨a', b', c', d', more, heq, hread, htrailing⟩ := trailing_eq_ok_iff.mp hsecond
          obtain ⟨body', hbody', rfl⟩ := exists_body_of_unit hbody heq
          obtain ⟨cs, hcs⟩ := ih _ (by simp; omega) hbody' h rfl
          have hspells : Spells (['\\', 'u', a, b, c, d, '\\', 'u', a', b', c', d'] ++ body') _ :=
            .cons (.pair hunit hleading hread htrailing) hcs
          exact ⟨_, hspells⟩

/-- **Strings.**  What is read of a string is what it spells. -/
theorem decides_read (hbody : IsBody body) (rest : List Char) :
    Decides read (body ++ '"' :: rest) rest fun s => Spells body s.toList where
  done hs := by
    have h := yields_readFrom_of_spells hs "" rest
    rwa [String.ofList_toList, String.empty_append] at h
  refused hnone := by
    refine .refused fun line column s c h => ?_
    obtain ⟨cs, hcs⟩ := exists_spells hbody h
    exact hnone (String.ofList cs) (by rwa [String.toList_ofList])

end Literal

/-- A string spells one row of characters. -/
theorem Grammar.Spells.unique (h : Spells body cs) (h' : Spells body cs') : cs = cs' := by
  have hread := (Literal.yields_readFrom_of_spells h "" []).eq_of_some
    (Literal.yields_readFrom_of_spells h' "" [])
  rw [String.empty_append, String.empty_append] at hread
  exact String.ofList_injective hread

end ExprForest.Json

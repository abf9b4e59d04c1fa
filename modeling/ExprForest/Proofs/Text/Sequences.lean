import ExprForest.Proofs.Text.Encoding
import ExprForest.Text.Utf8

namespace ExprForest.Text.Utf8

/-!
# Sequences of bytes

The reader of single sequences against the encoding of single characters.

* `Fits` — bytes that may follow a first byte, as far as they go; `collect` — the bits they hold;
* `lead?_eq_some_iff` — what may follow which first byte;
* `encodeChar_collect`, `encodeChar_cases` — the sequences that the table of first bytes allows are those
  that encode characters;
* `begins_cons_iff` — the bytes with which the encoding of some character starts;
* `IllFormed` — an ill-formed sequence: where no character is encoded, the most bytes with which the
  encoding of one starts, or a single byte;
* `pieceAt_cases` — every piece is a character with just its bytes, or an ill-formed sequence.
-/

variable {b : UInt8} {l : Lead} {low high : UInt8} {zs ys bs behind : List UInt8} {c : Char}
variable {first : UInt8} {code n : Nat} {seen : List UInt8}

/-! ### Continuations -/

/-- Bytes that may follow a first byte, as far as they go: the first of them in the range from `low` to
    `high`, the others plain continuations. -/
def Fits (low high : UInt8) : List UInt8 → Prop
  | [] => True
  | z :: zs => low ≤ z ∧ z ≤ high ∧ Fits 0x80 0xbf zs

/-- The bits of a character that follow those in `code`. -/
def collect (code : Nat) (zs : List UInt8) : Nat :=
  zs.foldl (fun code z => 64 * code + (z.toNat - 0x80)) code

theorem collect_cons (code : Nat) (z : UInt8) (zs : List UInt8) :
    collect code (z :: zs) = collect (64 * code + (z.toNat - 0x80)) zs := by
  simp only [collect, List.foldl_cons]

/-- Bytes that fit do so without those at their end. -/
theorem Fits.of_append (h : Fits low high (zs ++ ys)) : Fits low high zs := by
  induction zs generalizing low high with
  | nil => trivial
  | cons z zs ih =>
    obtain ⟨hlow, hhigh, hrest⟩ := h
    exact ⟨hlow, hhigh, ih hrest⟩

/-- Bytes that fit can be filled up to any number. -/
theorem Fits.exists_append (h : Fits low high zs) (hrange : low ≤ high) (hlength : zs.length ≤ n) :
    ∃ pad, Fits low high (zs ++ pad) ∧ (zs ++ pad).length = n := by
  induction n generalizing low high zs with
  | zero =>
    obtain rfl := List.length_eq_zero_iff.mp (Nat.le_zero.mp hlength)
    exact ⟨[], trivial, rfl⟩
  | succ n ih =>
    cases zs with
    | nil =>
      obtain ⟨pad, hpad, hn⟩ := @ih 0x80 0xbf [] trivial (by decide) (Nat.zero_le n)
      exact ⟨low :: pad, ⟨UInt8.le_refl low, hrange, hpad⟩, by simpa using hn⟩
    | cons z zs =>
      obtain ⟨hlow, hhigh, hrest⟩ := h
      obtain ⟨pad, hpad, hn⟩ := ih hrest (by decide) (Nat.le_of_succ_le_succ hlength)
      exact ⟨pad, ⟨hlow, hhigh, hpad⟩, by simpa using hn⟩

/-- At the head of any bytes stand all that may follow a first byte, or those up to one that may not. -/
theorem exists_fits (low high : UInt8) (n : Nat) (bs : List UInt8) :
    ∃ zs behind, bs = zs ++ behind ∧ Fits low high zs ∧
      (zs.length = n + 1 ∨
        zs.length ≤ n ∧ ∀ z, [z] <+: behind → ¬Fits low high (zs ++ [z])) := by
  induction n generalizing low high bs with
  | zero =>
    cases bs with
    | nil => exact ⟨[], [], rfl, trivial, .inr ⟨Nat.le_refl 0, by simp⟩⟩
    | cons b bs =>
      by_cases hb : low ≤ b ∧ b ≤ high
      · exact ⟨[b], bs, rfl, ⟨hb.1, hb.2, trivial⟩, .inl rfl⟩
      · refine ⟨[], b :: bs, rfl, trivial, .inr ⟨Nat.le_refl 0, ?_⟩⟩
        intro z hz hfits
        obtain rfl := (List.cons_prefix_cons.mp hz).1
        exact hb ⟨hfits.1, hfits.2.1⟩
  | succ n ih =>
    cases bs with
    | nil => exact ⟨[], [], rfl, trivial, .inr ⟨Nat.zero_le _, by simp⟩⟩
    | cons b bs =>
      by_cases hb : low ≤ b ∧ b ≤ high
      · -- behind a byte in range, the plain continuations
        obtain ⟨zs, behind, rfl, hfits, hend⟩ := ih 0x80 0xbf bs
        refine ⟨b :: zs, behind, rfl, ⟨hb.1, hb.2, hfits⟩, ?_⟩
        rcases hend with hall | ⟨hfew, hstop⟩
        · exact .inl (congrArg Nat.succ hall)
        · exact .inr ⟨Nat.succ_le_succ hfew, fun z hz h => hstop z hz h.2.2⟩
      · refine ⟨[], b :: bs, rfl, trivial, .inr ⟨Nat.zero_le _, ?_⟩⟩
        intro z hz hfits
        obtain rfl := (List.cons_prefix_cons.mp hz).1
        exact hb ⟨hfits.1, hfits.2.1⟩

/-- All the bytes that a character needs are read. -/
theorem continuation_of_fits (h : Fits low high zs) (hlength : zs.length = n + 1)
    (behind : List UInt8) :
    continuation first code seen low high n (zs ++ behind) =
      .char (Char.ofNat (collect code zs)) (seen.length + (n + 1)) := by
  induction n generalizing low high code seen zs with
  | zero =>
    obtain ⟨z, rfl⟩ := List.length_eq_one_iff.mp hlength
    rw [List.cons_append, continuation, if_pos ⟨h.1, h.2.1⟩]
    rfl
  | succ n ih =>
    obtain ⟨z, zs, rfl⟩ := List.exists_cons_of_ne_nil (List.ne_nil_of_length_eq_add_one hlength)
    rw [List.cons_append, continuation, if_pos ⟨h.1, h.2.1⟩]
    show continuation first _ _ _ _ n _ = _
    have hcount : (z :: seen).length + (n + 1) = seen.length + (n + 1 + 1) := by
      rw [List.length_cons]
      omega
    rw [ih h.2.2 (Nat.succ_inj.mp hlength), hcount, collect_cons]

/-- Bytes that end too early, or before one that may not follow, are set apart. -/
theorem continuation_of_stop (h : Fits low high zs) (hlength : zs.length ≤ n)
    (hstop : ∀ z, [z] <+: behind → ¬Fits low high (zs ++ [z])) :
    continuation first code seen low high n (zs ++ behind) = .bad first (seen.reverse ++ zs) := by
  induction zs generalizing low high code seen n with
  | nil =>
    cases behind with
    | nil => rw [List.append_nil, List.append_nil, continuation]
    | cons z behind =>
      have hz : ¬(low ≤ z ∧ z ≤ high) := by
        intro hz
        exact hstop z (by simp) ⟨hz.1, hz.2, trivial⟩
      rw [List.nil_append, continuation, if_neg hz, List.append_nil]
  | cons z zs ih =>
    obtain ⟨m, rfl⟩ : ∃ m, n = m + 1 := Nat.exists_eq_add_one.mpr (Nat.lt_of_lt_of_le (by simp) hlength)
    rw [List.cons_append, continuation, if_pos ⟨h.1, h.2.1⟩]
    show continuation first _ _ _ _ m _ = _
    have hstop' : ∀ w, [w] <+: behind → ¬Fits 0x80 0xbf (zs ++ [w]) :=
      fun w hw hfits => hstop w hw ⟨h.1, h.2.1, hfits⟩
    rw [ih h.2.2 (Nat.le_of_succ_le_succ hlength) hstop']
    simp

/-! ### First bytes -/

/-- What may follow a first byte.  The shortest code points of their length and the surrogates narrow the
    range of the second byte, and so does the greatest code point. -/
theorem lead?_eq_some_iff :
    lead? b = some l ↔
      0xc2 ≤ b.toNat ∧ b.toNat ≤ 0xdf ∧ l = ⟨b.toNat - 0xc0, 0x80, 0xbf, 0⟩ ∨
      0xe0 ≤ b.toNat ∧ b.toNat ≤ 0xef ∧ l = ⟨b.toNat - 0xe0,
        if b.toNat = 0xe0 then 0xa0 else 0x80, if b.toNat = 0xed then 0x9f else 0xbf, 1⟩ ∨
      0xf0 ≤ b.toNat ∧ b.toNat ≤ 0xf4 ∧ l = ⟨b.toNat - 0xf0,
        if b.toNat = 0xf0 then 0x90 else 0x80, if b.toNat = 0xf4 then 0x8f else 0xbf, 2⟩ := by
  unfold lead?
  simp only [UInt8.le_iff_toNat_le, ← UInt8.toNat_inj, UInt8.reduceToNat]
  grind

theorem low_le_high (hl : lead? b = some l) : l.low ≤ l.high := by
  rcases lead?_eq_some_iff.mp hl with ⟨-, -, rfl⟩ | ⟨-, -, rfl⟩ | ⟨-, -, rfl⟩
  · exact (by decide : (0x80 : UInt8) ≤ 0xbf)
  · by_cases h : b.toNat = 0xe0
    · simp [h]
    · simp only [if_neg h]
      split <;> decide
  · by_cases h : b.toNat = 0xf0
    · simp [h]
    · simp only [if_neg h]
      split <;> decide

/-- A byte that starts a longer sequence is no character itself. -/
theorem le_toNat_of_lead? (hl : lead? b = some l) : 0x80 ≤ b.toNat := by
  rcases lead?_eq_some_iff.mp hl with ⟨h, -⟩ | ⟨h, -⟩ | ⟨h, -⟩ <;> omega

theorem eq_ofNat_of_toNat_eq {n : Nat} (h : b.toNat = n) : b = UInt8.ofNat n := by
  rw [← h, UInt8.ofNat_toNat]

theorem toNat_ofNat_of_valid (h : n < 0xd800 ∨ 0xdfff < n ∧ n < 0x110000) :
    (Char.ofNat n).toNat = n := by
  rw [Char.toNat_ofNat, if_pos h]

section

variable {x y z : UInt8}

theorem encodeChar_ofNat_two (hb : 0xc2 ≤ b.toNat ∧ b.toNat ≤ 0xdf)
    (hx : 0x80 ≤ x.toNat ∧ x.toNat ≤ 0xbf) (hn : n = 64 * (b.toNat - 0xc0) + (x.toNat - 0x80)) :
    String.utf8EncodeChar (Char.ofNat n) = [b, x] := by
  have htoNat : (Char.ofNat n).toNat = n := toNat_ofNat_of_valid (by omega)
  have hb' : b = UInt8.ofNat (n / 64 + 0xc0) := eq_ofNat_of_toNat_eq (by omega)
  have hx' : x = UInt8.ofNat (n % 64 + 0x80) := eq_ofNat_of_toNat_eq (by omega)
  rw [encodeChar_two (by omega) (by omega), htoNat, ← hb', ← hx']

theorem encodeChar_ofNat_three (hb : 0xe0 ≤ b.toNat ∧ b.toNat ≤ 0xef)
    (hx : 0x80 ≤ x.toNat ∧ x.toNat ≤ 0xbf) (hy : 0x80 ≤ y.toNat ∧ y.toNat ≤ 0xbf)
    (hlow : b.toNat = 0xe0 → 0xa0 ≤ x.toNat) (hhigh : b.toNat = 0xed → x.toNat ≤ 0x9f)
    (hn : n = 64 * (64 * (b.toNat - 0xe0) + (x.toNat - 0x80)) + (y.toNat - 0x80)) :
    String.utf8EncodeChar (Char.ofNat n) = [b, x, y] := by
  have htoNat : (Char.ofNat n).toNat = n := toNat_ofNat_of_valid (by omega)
  have hb' : b = UInt8.ofNat (n / 4096 + 0xe0) := eq_ofNat_of_toNat_eq (by omega)
  have hx' : x = UInt8.ofNat (n / 64 % 64 + 0x80) := eq_ofNat_of_toNat_eq (by omega)
  have hy' : y = UInt8.ofNat (n % 64 + 0x80) := eq_ofNat_of_toNat_eq (by omega)
  rw [encodeChar_three (by omega) (by omega), htoNat, ← hb', ← hx', ← hy']

theorem encodeChar_ofNat_four (hb : 0xf0 ≤ b.toNat ∧ b.toNat ≤ 0xf4)
    (hx : 0x80 ≤ x.toNat ∧ x.toNat ≤ 0xbf) (hy : 0x80 ≤ y.toNat ∧ y.toNat ≤ 0xbf)
    (hz : 0x80 ≤ z.toNat ∧ z.toNat ≤ 0xbf)
    (hlow : b.toNat = 0xf0 → 0x90 ≤ x.toNat) (hhigh : b.toNat = 0xf4 → x.toNat ≤ 0x8f)
    (hn : n = 64 * (64 * (64 * (b.toNat - 0xf0) + (x.toNat - 0x80)) + (y.toNat - 0x80)) +
      (z.toNat - 0x80)) :
    String.utf8EncodeChar (Char.ofNat n) = [b, x, y, z] := by
  have htoNat : (Char.ofNat n).toNat = n := toNat_ofNat_of_valid (by omega)
  have hb' : b = UInt8.ofNat (n / 262144 + 0xf0) := eq_ofNat_of_toNat_eq (by omega)
  have hx' : x = UInt8.ofNat (n / 4096 % 64 + 0x80) := eq_ofNat_of_toNat_eq (by omega)
  have hy' : y = UInt8.ofNat (n / 64 % 64 + 0x80) := eq_ofNat_of_toNat_eq (by omega)
  have hz' : z = UInt8.ofNat (n % 64 + 0x80) := eq_ofNat_of_toNat_eq (by omega)
  rw [encodeChar_four (by omega), htoNat, ← hb', ← hx', ← hy', ← hz']

end

/-- A first byte with all that may follow it encodes the character of its bits. -/
theorem encodeChar_collect (hl : lead? b = some l) (hfits : Fits l.low l.high zs)
    (hlength : zs.length = l.further + 1) :
    String.utf8EncodeChar (Char.ofNat (collect l.bits zs)) = b :: zs := by
  rcases lead?_eq_some_iff.mp hl with ⟨h, h', rfl⟩ | ⟨h, h', rfl⟩ | ⟨h, h', rfl⟩
  · obtain ⟨x, rfl⟩ := List.length_eq_one_iff.mp hlength
    simp only [Fits, UInt8.le_iff_toNat_le, UInt8.reduceToNat] at hfits
    exact encodeChar_ofNat_two ⟨h, h'⟩ ⟨hfits.1, hfits.2.1⟩ rfl
  · obtain ⟨x, y, rfl⟩ := List.length_eq_two.mp hlength
    simp only [Fits, UInt8.le_iff_toNat_le, apply_ite UInt8.toNat, UInt8.reduceToNat] at hfits
    obtain ⟨hlow, hhigh, hy, hy', -⟩ := hfits
    refine encodeChar_ofNat_three ⟨h, h'⟩ ?_ ⟨hy, hy'⟩ ?_ ?_ rfl <;> grind
  · obtain ⟨x, y, z, rfl⟩ := List.length_eq_three.mp hlength
    simp only [Fits, UInt8.le_iff_toNat_le, apply_ite UInt8.toNat, UInt8.reduceToNat] at hfits
    obtain ⟨hlow, hhigh, hy, hy', hz, hz', -⟩ := hfits
    refine encodeChar_ofNat_four ⟨h, h'⟩ ?_ ⟨hy, hy'⟩ ⟨hz, hz'⟩ ?_ ?_ rfl <;> grind

/-- A character is encoded by one byte, or by a first byte with all that may follow it. -/
theorem encodeChar_cases (c : Char) :
    (∃ b, b.toNat < 0x80 ∧ String.utf8EncodeChar c = [b] ∧ Char.ofNat b.toNat = c) ∨
      ∃ b l zs, String.utf8EncodeChar c = b :: zs ∧ lead? b = some l ∧ Fits l.low l.high zs ∧
        zs.length = l.further + 1 ∧ Char.ofNat (collect l.bits zs) = c := by
  have hvalid := toNat_valid c
  have hcollect : ∀ {m}, c.toNat = m → Char.ofNat m = c := by
    rintro m rfl
    exact Char.ofNat_toNat c
  rcases encodeChar_forms c with ⟨w, hw, hc, hc'⟩ | ⟨w, x, hw, hc, hc'⟩ | ⟨w, x, y, hw, hc, hc'⟩ |
      ⟨w, x, y, z, hw, hc, hc'⟩
  · refine .inl ⟨_, ?_, hc', hcollect ?_⟩ <;>
    · rw [UInt8.toNat_ofNat']
      omega
  · -- the digits in the bytes are those of the character
    refine .inr ⟨_, _, _, hc', lead?_eq_some_iff.mpr (.inl ⟨?_, ?_, rfl⟩), ?_, rfl, hcollect ?_⟩
    · rw [UInt8.toNat_ofNat']
      omega
    · rw [UInt8.toNat_ofNat']
      omega
    · simp [Fits, UInt8.le_iff_toNat_le]
      omega
    · simp [collect]
      omega
  · refine .inr ⟨_, _, _, hc', lead?_eq_some_iff.mpr (.inr (.inl ⟨?_, ?_, rfl⟩)), ?_, rfl,
      hcollect ?_⟩
    · rw [UInt8.toNat_ofNat']
      omega
    · rw [UInt8.toNat_ofNat']
      omega
    · simp [Fits, UInt8.le_iff_toNat_le, apply_ite UInt8.toNat]
      grind
    · simp [collect]
      omega
  · refine .inr ⟨_, _, _, hc', lead?_eq_some_iff.mpr (.inr (.inr ⟨?_, ?_, rfl⟩)), ?_, rfl,
      hcollect ?_⟩
    · rw [UInt8.toNat_ofNat']
      omega
    · rw [UInt8.toNat_ofNat']
      omega
    · simp [Fits, UInt8.le_iff_toNat_le, apply_ite UInt8.toNat]
      grind
    · simp [collect]
      omega

/-! ### Ill-formed sequences -/

/-- Whether the encoding of some character starts with some bytes. -/
def Begins (bs : List UInt8) : Prop :=
  ∃ c, bs <+: String.utf8EncodeChar c

/-- The bytes with which the encoding of some character starts. -/
theorem begins_cons_iff :
    Begins (b :: ys) ↔ b.toNat < 0x80 ∧ ys = [] ∨
      ∃ l, lead? b = some l ∧ Fits l.low l.high ys ∧ ys.length ≤ l.further + 1 := by
  constructor
  · rintro ⟨c, hpre⟩
    rcases encodeChar_cases c with ⟨b', hsmall, hc, -⟩ | ⟨b', l, zs, hc, hl, hfits, hlength, -⟩
    · rw [hc] at hpre
      obtain ⟨rfl, hys⟩ := List.cons_prefix_cons.mp hpre
      exact .inl ⟨hsmall, List.prefix_nil.mp hys⟩
    · rw [hc] at hpre
      obtain ⟨rfl, more, rfl⟩ := List.cons_prefix_cons.mp hpre
      refine .inr ⟨l, hl, hfits.of_append, ?_⟩
      rw [List.length_append] at hlength
      omega
  · rintro (⟨hsmall, rfl⟩ | ⟨l, hl, hfits, hlength⟩)
    · have htoNat : (Char.ofNat b.toNat).toNat = b.toNat := toNat_ofNat_of_valid (by omega)
      refine ⟨Char.ofNat b.toNat, ?_⟩
      rw [encodeChar_one (by omega), htoNat, UInt8.ofNat_toNat]
    · obtain ⟨pad, hpad, hfull⟩ := hfits.exists_append (low_le_high hl) hlength
      refine ⟨Char.ofNat (collect l.bits (ys ++ pad)), ?_⟩
      rw [encodeChar_collect hl hpad hfull]
      exact (List.prefix_cons_inj b).mpr (List.prefix_append ys pad)

/-- An ill-formed sequence and the bytes behind it: no character is encoded at its start, and it is a
    single byte, or the most bytes there with which the encoding of some character starts. -/
structure IllFormed (bad behind : List UInt8) : Prop where
  no_char : ∀ c, ¬String.utf8EncodeChar c <+: bad ++ behind
  begins : bad ≠ [] ∧ (bad.length = 1 ∨ Begins bad)
  longest : ∀ bs, Begins bs → bs <+: bad ++ behind → bs.length ≤ bad.length

/-- A byte with which no character starts is ill-formed by itself. -/
theorem illFormed_singleton (hb : ¬Begins [b]) (behind : List UInt8) : IllFormed [b] behind := by
  -- whatever starts here starts with that byte
  have hnil : ∀ bs, Begins bs → bs <+: [b] ++ behind → bs = [] := by
    rintro bs ⟨c, hc⟩ hpre
    cases bs with
    | nil => rfl
    | cons b' bs =>
      obtain ⟨rfl, -⟩ := List.cons_prefix_cons.mp hpre
      exact absurd ⟨c, (List.prefix_append [b'] bs).trans hc⟩ hb
  refine ⟨fun c hc => ?_, ⟨List.cons_ne_nil b [], .inl rfl⟩, fun bs hbs hpre => ?_⟩
  · exact String.utf8EncodeChar_ne_nil (hnil _ ⟨c, List.prefix_rfl⟩ hc)
  · rw [hnil bs hbs hpre]
    exact Nat.zero_le _

/-- A first byte is ill-formed with what follows it, if that is less than a character needs and a byte
    comes that may not follow. -/
theorem illFormed_of_stop (hl : lead? b = some l) (hfits : Fits l.low l.high zs)
    (hlength : zs.length ≤ l.further)
    (hstop : ∀ z, [z] <+: behind → ¬Fits l.low l.high (zs ++ [z])) : IllFormed (b :: zs) behind := by
  have hlead := le_toNat_of_lead? hl
  have hlongest : ∀ bs, Begins bs → bs <+: (b :: zs) ++ behind → bs.length ≤ (b :: zs).length := by
    intro bs hbs hpre
    by_contra hlonger
    obtain ⟨b', ys, rfl⟩ := List.exists_cons_of_ne_nil
      (List.ne_nil_of_length_pos (Nat.zero_lt_of_lt (Nat.lt_of_not_le hlonger)))
    obtain ⟨rfl, hys⟩ := List.cons_prefix_cons.mp hpre
    obtain ⟨more, rfl⟩ : zs <+: ys := by
      refine List.prefix_of_prefix_length_le (List.prefix_append zs behind) hys ?_
      simp only [List.length_cons] at hlonger
      omega
    -- the byte that may not follow belongs to the longer start of a character
    cases more with
    | nil => simp at hlonger
    | cons z more =>
      have hz : [z] <+: behind := by
        have := (List.prefix_append_right_inj zs).mp hys
        exact (List.prefix_append [z] more).trans this
      rcases begins_cons_iff.mp hbs with ⟨hsmall, -⟩ | ⟨l', hl', hfits', -⟩
      · omega
      · obtain rfl := Option.some.inj (hl.symm.trans hl')
        rw [← List.singleton_append, ← List.append_assoc] at hfits'
        exact hstop z hz hfits'.of_append
  refine ⟨fun c hc => ?_, ⟨List.cons_ne_nil b zs, .inr ?_⟩, hlongest⟩
  · -- the encoding of a character is longer than the bytes that fit
    have hle := hlongest _ ⟨c, List.prefix_rfl⟩ hc
    rcases encodeChar_cases c with ⟨b', hsmall, hc', -⟩ | ⟨b', l', ys, hc', hl', -, hfull, -⟩
    · rw [hc'] at hc
      obtain ⟨rfl, -⟩ := List.cons_prefix_cons.mp hc
      omega
    · rw [hc'] at hc hle
      obtain ⟨rfl, -⟩ := List.cons_prefix_cons.mp hc
      obtain rfl := Option.some.inj (hl.symm.trans hl')
      simp only [List.length_cons] at hle
      omega
  · exact begins_cons_iff.mpr (.inr ⟨l, hl, hfits, Nat.le_succ_of_le hlength⟩)

/-! ### Pieces -/

/-- The bytes that encode a character are read as it. -/
theorem pieceAt_of_encodeChar (h : String.utf8EncodeChar c = b :: zs) (behind : List UInt8) :
    pieceAt b (zs ++ behind) = .char c zs.length := by
  rcases encodeChar_cases c with ⟨b', hsmall, hc, hchar⟩ | ⟨b', l, ys, hc, hl, hfits, hlength, hchar⟩
  · obtain ⟨rfl, rfl⟩ := List.cons.inj (h.symm.trans hc)
    have hascii : b < 0x80 := UInt8.lt_iff_toNat_lt.mpr hsmall
    rw [pieceAt, if_pos hascii, hchar]
    rfl
  · obtain ⟨rfl, rfl⟩ := List.cons.inj (h.symm.trans hc)
    have hlead := le_toNat_of_lead? hl
    have hascii : ¬b < 0x80 := fun hlt => absurd (UInt8.lt_iff_toNat_lt.mp hlt) (by simpa using hlead)
    rw [pieceAt, if_neg hascii, hl]
    show continuation b l.bits [] l.low l.high l.further (zs ++ behind) = _
    rw [continuation_of_fits hfits hlength, hchar, hlength, List.length_nil, Nat.zero_add]

/-- **One piece.**  What is read at a byte is a character, with just the bytes that encode it, or an
    ill-formed sequence. -/
theorem pieceAt_cases (b : UInt8) (bs : List UInt8) :
    (∃ c zs behind, bs = zs ++ behind ∧ String.utf8EncodeChar c = b :: zs ∧
        pieceAt b bs = .char c zs.length) ∨
      ∃ zs behind, bs = zs ++ behind ∧ IllFormed (b :: zs) behind ∧ pieceAt b bs = .bad b zs := by
  by_cases hascii : b < 0x80
  · -- a byte below `0x80` is a character
    have hsmall : b.toNat < 0x80 := UInt8.lt_iff_toNat_lt.mp hascii
    have htoNat : (Char.ofNat b.toNat).toNat = b.toNat := toNat_ofNat_of_valid (by omega)
    have hchar : String.utf8EncodeChar (Char.ofNat b.toNat) = [b] := by
      rw [encodeChar_one (by omega), htoNat, UInt8.ofNat_toNat]
    exact .inl ⟨_, [], bs, rfl, hchar, pieceAt_of_encodeChar hchar bs⟩
  cases hl : lead? b with
  | none =>
    refine .inr ⟨[], bs, rfl, illFormed_singleton ?_ bs, by rw [pieceAt, if_neg hascii, hl]⟩
    intro hbegins
    rcases begins_cons_iff.mp hbegins with ⟨hsmall, -⟩ | ⟨l, hl', -⟩
    · exact hascii (UInt8.lt_iff_toNat_lt.mpr hsmall)
    · cases hl.symm.trans hl'
  | some l =>
    obtain ⟨zs, behind, rfl, hfits, hall | ⟨hfew, hstop⟩⟩ := exists_fits l.low l.high l.further bs
    · have hchar := encodeChar_collect hl hfits hall
      exact .inl ⟨_, zs, behind, rfl, hchar, pieceAt_of_encodeChar hchar behind⟩
    · refine .inr ⟨zs, behind, rfl, illFormed_of_stop hl hfits hfew hstop, ?_⟩
      rw [pieceAt, if_neg hascii, hl]
      show continuation b l.bits [] l.low l.high l.further (zs ++ behind) = _
      rw [continuation_of_stop hfits hfew hstop]
      rfl

end ExprForest.Text.Utf8

import ExprForest.Proofs.Text.Position

namespace ExprForest.Text.Utf8

/-!
# The bytes of characters

* `encode` — the UTF-8 bytes of a list of characters, which are the bytes of the string of these characters;
* `length_encode` — as many as the characters take;
* `encodeChar_one`, …, `encodeChar_four` — the bytes of one character, by their number, and
  `encodeChar_forms` — by the digits of its code point;
* `count_lineFeed_encode` — a line feed is the only character with its byte.
-/

variable {c : Char} {cs : List Char}

/-- The UTF-8 bytes of some characters. -/
def encode (cs : List Char) : List UInt8 :=
  cs.flatMap String.utf8EncodeChar

@[simp] theorem encode_nil : encode [] = [] := rfl

@[simp] theorem encode_cons (c : Char) (cs : List Char) :
    encode (c :: cs) = String.utf8EncodeChar c ++ encode cs :=
  List.flatMap_cons

@[simp] theorem encode_append (cs ds : List Char) : encode (cs ++ ds) = encode cs ++ encode ds :=
  List.flatMap_append

/-- The bytes of a string are those of its characters. -/
theorem toByteArray_eq_encode (text : String) : text.toByteArray = (encode text.toList).toByteArray :=
  String.utf8Encode_toList.symm

theorem length_encode (cs : List Char) : (encode cs).length = byteLength cs := by
  induction cs with
  | nil => rfl
  | cons c cs ih =>
    rw [encode_cons, List.length_append, String.length_utf8EncodeChar, ih, byteLength_cons]

/-! ### Single characters -/

/-- Code points are no surrogates and below a bound. -/
theorem toNat_valid (c : Char) : c.toNat < 0xd800 ∨ 0xdfff < c.toNat ∧ c.toNat < 0x110000 :=
  c.valid

theorem encodeChar_one (h : c.toNat < 0x80) :
    String.utf8EncodeChar c = [UInt8.ofNat c.toNat] := by
  have hval : c.val.toNat = c.toNat := rfl
  rw [String.utf8EncodeChar, if_pos (by omega), hval]

theorem encodeChar_two (h : 0x80 ≤ c.toNat) (h' : c.toNat < 0x800) :
    String.utf8EncodeChar c =
      [UInt8.ofNat (c.toNat / 64 + 0xc0), UInt8.ofNat (c.toNat % 64 + 0x80)] := by
  have hval : c.val.toNat = c.toNat := rfl
  have hlead : c.toNat / 64 % 32 = c.toNat / 64 := Nat.mod_eq_of_lt (by omega)
  rw [String.utf8EncodeChar, if_neg (by omega), if_pos (by omega), hval, hlead]

theorem encodeChar_three (h : 0x800 ≤ c.toNat) (h' : c.toNat < 0x10000) :
    String.utf8EncodeChar c =
      [UInt8.ofNat (c.toNat / 4096 + 0xe0), UInt8.ofNat (c.toNat / 64 % 64 + 0x80),
        UInt8.ofNat (c.toNat % 64 + 0x80)] := by
  have hval : c.val.toNat = c.toNat := rfl
  have hlead : c.toNat / 4096 % 16 = c.toNat / 4096 := Nat.mod_eq_of_lt (by omega)
  rw [String.utf8EncodeChar, if_neg (by omega), if_neg (by omega), if_pos (by omega), hval, hlead]

theorem encodeChar_four (h : 0x10000 ≤ c.toNat) :
    String.utf8EncodeChar c =
      [UInt8.ofNat (c.toNat / 262144 + 0xf0), UInt8.ofNat (c.toNat / 4096 % 64 + 0x80),
        UInt8.ofNat (c.toNat / 64 % 64 + 0x80), UInt8.ofNat (c.toNat % 64 + 0x80)] := by
  have hval : c.val.toNat = c.toNat := rfl
  have hvalid := toNat_valid c
  have hlead : c.toNat / 262144 % 8 = c.toNat / 262144 := Nat.mod_eq_of_lt (by omega)
  rw [String.utf8EncodeChar, if_neg (by omega), if_neg (by omega), if_neg (by omega), hval, hlead]

/-- The four forms of the bytes of a character, by the digits of its code point to base 64. -/
theorem encodeChar_forms (c : Char) :
    (∃ w, w < 0x80 ∧ c.toNat = w ∧ String.utf8EncodeChar c = [UInt8.ofNat w]) ∨
      (∃ w x, (2 ≤ w ∧ w < 32 ∧ x < 64) ∧ c.toNat = 64 * w + x ∧
        String.utf8EncodeChar c = [UInt8.ofNat (w + 0xc0), UInt8.ofNat (x + 0x80)]) ∨
      (∃ w x y, (w < 16 ∧ x < 64 ∧ y < 64 ∧ 32 ≤ 64 * w + x) ∧ c.toNat = 64 * (64 * w + x) + y ∧
        String.utf8EncodeChar c =
          [UInt8.ofNat (w + 0xe0), UInt8.ofNat (x + 0x80), UInt8.ofNat (y + 0x80)]) ∨
      ∃ w x y z, (w < 8 ∧ x < 64 ∧ y < 64 ∧ z < 64 ∧ 16 ≤ 64 * w + x) ∧
        c.toNat = 64 * (64 * (64 * w + x) + y) + z ∧
        String.utf8EncodeChar c = [UInt8.ofNat (w + 0xf0), UInt8.ofNat (x + 0x80),
          UInt8.ofNat (y + 0x80), UInt8.ofNat (z + 0x80)] := by
  have hvalid := toNat_valid c
  have hdiv : c.toNat / 64 / 64 = c.toNat / 4096 := Nat.div_div_eq_div_mul _ _ _
  have hdiv' : c.toNat / 4096 / 64 = c.toNat / 262144 := Nat.div_div_eq_div_mul _ _ _
  by_cases h1 : c.toNat < 0x80
  · exact .inl ⟨_, h1, rfl, encodeChar_one h1⟩
  by_cases h2 : c.toNat < 0x800
  · exact .inr (.inl ⟨_, _, by omega, by omega, encodeChar_two (by omega) h2⟩)
  by_cases h3 : c.toNat < 0x10000
  · exact .inr (.inr (.inl ⟨_, _, _, by omega, by omega, encodeChar_three (by omega) h3⟩))
  · exact .inr (.inr (.inr ⟨_, _, _, _, by omega, by omega, encodeChar_four (by omega)⟩))

/-! ### Line feeds -/

/-- The byte of a line feed stands in no other character. -/
theorem count_lineFeed_encodeChar (c : Char) :
    (String.utf8EncodeChar c).count 0x0a = if c = '\n' then 1 else 0 := by
  by_cases hfeed : c = '\n'
  · subst hfeed
    rfl
  · rw [if_neg hfeed, List.count_eq_zero]
    have hne : c.toNat ≠ 10 := fun h => hfeed (Char.toNat_inj.mp h)
    -- the bytes of a longer sequence are at least `0x80`
    rcases encodeChar_forms c with ⟨w, hw, hc, hc'⟩ | ⟨w, x, hw, hc, hc'⟩ |
        ⟨w, x, y, hw, hc, hc'⟩ | ⟨w, x, y, z, hw, hc, hc'⟩ <;>
    · rw [hc']
      simp only [List.mem_cons, List.not_mem_nil, or_false, ← UInt8.toNat_inj, UInt8.toNat_ofNat',
        UInt8.reduceToNat]
      omega

/-- As many line feeds among the bytes as among the characters. -/
theorem count_lineFeed_encode (cs : List Char) : (encode cs).count 0x0a = cs.count '\n' := by
  induction cs with
  | nil => rfl
  | cons c cs ih =>
    rw [encode_cons, List.count_append, count_lineFeed_encodeChar, ih, List.count_cons]
    simp only [beq_iff_eq]
    omega

end ExprForest.Text.Utf8

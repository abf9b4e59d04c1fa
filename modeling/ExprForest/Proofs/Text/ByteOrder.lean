import ExprForest.Proofs.Text.Encoding

namespace ExprForest.Text.Utf8

/-!
# The order of bytes

Characters are ordered as their bytes are, and so are texts.

* `encodeChar_append_lt` — smaller characters have smaller bytes, whatever comes behind them;
* `encode_lt_encode`, `lt_iff_encode_lt` — the order of texts is the order of their bytes.
-/

variable {c d : Char}

/-- Smaller characters have smaller bytes. -/
theorem encodeChar_append_lt (h : c < d) (xs ys : List UInt8) :
    String.utf8EncodeChar c ++ xs < String.utf8EncodeChar d ++ ys := by
  have hlt : c.toNat < d.toNat := h
  -- the first byte tells forms of different length apart; within one form the digits decide in order
  rcases encodeChar_forms c with ⟨w, hw, hc, hc'⟩ | ⟨w, x, hw, hc, hc'⟩ | ⟨w, x, y, hw, hc, hc'⟩ |
      ⟨w, x, y, z, hw, hc, hc'⟩ <;>
    rcases encodeChar_forms d with ⟨w', hw', hd, hd'⟩ | ⟨w', x', hw', hd, hd'⟩ |
      ⟨w', x', y', hw', hd, hd'⟩ | ⟨w', x', y', z', hw', hd, hd'⟩ <;>
    · rw [hc', hd']
      simp only [List.cons_append, List.nil_append, List.cons_lt_cons_iff, UInt8.lt_iff_toNat_lt,
        ← UInt8.toNat_inj, UInt8.toNat_ofNat']
      omega

/-- Smaller lists of characters have smaller bytes. -/
theorem encode_lt_encode {cs ds : List Char} (h : cs < ds) : encode cs < encode ds := by
  induction h with
  | @nil d ds =>
    obtain ⟨b, bs, hb⟩ := List.exists_cons_of_ne_nil (@String.utf8EncodeChar_ne_nil d)
    rw [encode_nil, encode_cons, hb, List.cons_append]
    exact List.nil_lt_cons _ _
  | cons h ih =>
    rw [encode_cons, encode_cons]
    exact List.append_left_lt ih
  | rel h =>
    rw [encode_cons, encode_cons]
    exact encodeChar_append_lt h _ _

/-- Texts are ordered as their bytes are. -/
theorem lt_iff_encode_lt {a b : String} : a < b ↔ encode a.toList < encode b.toList := by
  refine ⟨fun h => encode_lt_encode h, fun h => ?_⟩
  rcases lt_trichotomy a b with hlt | heq | hgt
  · exact hlt
  · rw [heq] at h
    exact absurd h (List.lt_irrefl _)
  · exact absurd (encode_lt_encode hgt) (List.lt_asymm h)

end ExprForest.Text.Utf8

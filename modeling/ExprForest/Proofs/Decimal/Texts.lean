import ExprForest.Decimal.Format
import ExprForest.Proofs.Decimal.Intervals
import ExprForest.Proofs.Decimal.Literals

namespace ExprForest.Decimal.Format

/-!
# The texts of finite numbers

The text of a finite number is its sign and the shortest digits of its magnitude.  In the notation for trees
it denotes a number in the interval of the double, so no two doubles have the same text.

* `toList_text`, `text_mem_words` — a sign and a magnitude, or else a word;
* `IsMark`, `isMark_of_mem_text` — the characters of the text;
* `natOfDigits_digitsOf`, `natOfDigits_append` — digits as they are written and read;
* `denotes_layPositional`, `denotes_unsigned` — what is written without a power of ten denotes its digits;
* `unsignedValue_injective`, `plain_text_injective` — the magnitude tells the double, and so does the text.
-/

open ExprForest.Numeral (IsDigits)
open Float.Model (UnpackedFloat)

variable {f : Format} {x y : Float} {ch : Char} {ds : List Char} {bits : Nat}

/-! ### A sign and a magnitude -/

/-- The sign of a double, which is written if it is a minus. -/
def sign (x : Float) : List Char :=
  if x.toBits.toNat / 2 ^ 63 = 1 then ['-'] else []

/-- The text of a magnitude by its bits. -/
def unsigned (f : Format) (bits : Nat) : List Char :=
  if bits = 0 then '0' :: f.wholeEnd.toList else f.magnitude ((Binary.ofBits bits).shortest f.tie)

/-- A number is finite if it is neither not-a-number nor infinite. -/
theorem isFinite_iff : x.isFinite = true ↔ x.isNaN = false ∧ x.isInf = false := by
  show x.toModel.unpack.isFinite = true ↔ x.toModel.unpack.isNaN = false ∧ x.toModel.unpack.isInf = false
  cases x.toModel.unpack <;> simp [UnpackedFloat.isFinite, UnpackedFloat.isNaN, UnpackedFloat.isInf]

/-- A finite number is written as a sign and a magnitude. -/
theorem toList_text (f : Format) (hx : x.isFinite = true) :
    (f.text x).toList = sign x ++ f.unsigned (x.toBits.toNat % 2 ^ 63) := by
  obtain ⟨hnan, hinf⟩ := isFinite_iff.mp hx
  have hsign : (if x.toBits.toNat / 2 ^ 63 = 1 then "-" else "").toList = sign x := by
    unfold sign
    split <;> rfl
  unfold text unsigned
  dsimp only
  rw [hnan, hinf, if_neg Bool.false_ne_true, if_neg Bool.false_ne_true, ← hsign]
  split
  · simp
  · simp

/-- What is not finite is written as a word. -/
theorem text_mem_words (f : Format) (hx : x.isFinite = false) : f.text x ∈ ["NaN", "inf", "-inf"] := by
  unfold text
  extract_lets bits sign
  split
  · exact List.mem_cons_self
  · rename_i hnan
    have hinf : x.isInf = true := by
      by_contra hinf
      rw [isFinite_iff.mpr ⟨Bool.eq_false_of_not_eq_true hnan, Bool.eq_false_of_not_eq_true hinf⟩] at hx
      cases hx
    rw [if_pos hinf]
    unfold sign
    split <;> decide

/-! ### Its characters -/

/-- The characters of a finite number. -/
def IsMark (ch : Char) : Prop :=
  ch.isDigit = true ∨ ch = '.' ∨ ch = 'e' ∨ ch = '+' ∨ ch = '-'

theorem isMark_digitsOf (n : Nat) : ∀ ch ∈ digitsOf n, IsMark ch := fun _ h =>
  .inl (Nat.isDigit_of_mem_toDigits (by decide) (by decide) h)

theorem isMark_zeros (n : Nat) : ∀ ch ∈ zeros n, IsMark ch := by
  intro ch h
  rw [List.eq_of_mem_replicate h]
  exact .inl rfl

section Notation

variable (hend : ∀ ch ∈ f.wholeEnd.toList, IsMark ch)
include hend

theorem isMark_layPositional {digits : List Char} (h : ∀ ch ∈ digits, IsMark ch) (point : Int) :
    ∀ ch ∈ f.layPositional digits point, IsMark ch := by
  have hzero : IsMark '0' := .inl rfl
  have hpoint : IsMark '.' := .inr (.inl rfl)
  unfold layPositional
  split
  · simp only [List.forall_mem_append]
    exact ⟨⟨h, isMark_zeros _⟩, hend⟩
  · split
    · simp only [List.forall_mem_append, List.forall_mem_cons]
      exact ⟨fun ch hch => h ch (List.mem_of_mem_take hch), hpoint,
        fun ch hch => h ch (List.mem_of_mem_drop hch)⟩
    · simp only [List.forall_mem_append, List.forall_mem_cons]
      exact ⟨⟨hzero, hpoint, isMark_zeros _⟩, h⟩

omit hend in
theorem isMark_layScientific {digits : List Char} (h : ∀ ch ∈ digits, IsMark ch) (exponent : Int) :
    ∀ ch ∈ layScientific digits exponent, IsMark ch := by
  have hsign : IsMark (if exponent < 0 then '-' else '+') := by
    split
    · exact .inr (.inr (.inr (.inr rfl)))
    · exact .inr (.inr (.inr (.inl rfl)))
  unfold layScientific
  extract_lets mantissa
  have hmantissa : ∀ ch ∈ mantissa, IsMark ch := by
    unfold mantissa
    split
    · exact h
    · exact h
    · rw [List.forall_mem_cons] at h
      exact List.forall_mem_cons.mpr ⟨h.1, List.forall_mem_cons.mpr ⟨.inr (.inl rfl), h.2⟩⟩
  simp only [List.forall_mem_append, List.forall_mem_cons]
  exact ⟨hmantissa, .inr (.inr (.inl rfl)), hsign, isMark_digitsOf _⟩

theorem isMark_magnitude (d : Digits) : ∀ ch ∈ f.magnitude d, IsMark ch := by
  unfold magnitude
  extract_lets digits point
  split
  · exact isMark_layPositional hend (isMark_digitsOf _) _
  · exact isMark_layScientific (isMark_digitsOf _) _

/-- Nothing else stands in the text of a finite number. -/
theorem isMark_of_mem_text (hx : x.isFinite = true) : ∀ ch ∈ (f.text x).toList, IsMark ch := by
  have hsign : ∀ ch ∈ sign x, IsMark ch := by
    unfold sign
    split
    · exact List.forall_mem_singleton.mpr (.inr (.inr (.inr (.inr rfl))))
    · nofun
  rw [toList_text f hx, List.forall_mem_append]
  refine ⟨hsign, ?_⟩
  unfold unsigned
  split
  · exact List.forall_mem_cons.mpr ⟨.inl rfl, hend⟩
  · exact isMark_magnitude hend _

end Notation

/-! ### Its digits -/

theorem isDigits_digitsOf (n : Nat) : IsDigits (digitsOf n) :=
  ⟨Nat.toDigits_ne_nil, fun _ hch => Nat.isDigit_of_mem_toDigits (by decide) (by decide) hch⟩

theorem isDigit_of_mem_zeros {n : Nat} (h : ch ∈ zeros n) : ch.isDigit = true := by
  rw [List.eq_of_mem_replicate h]
  rfl

/-- The digits of a number are read back. -/
theorem natOfDigits_digitsOf (n : Nat) : natOfDigits (digitsOf n) = n := by
  have hread : Nat.ofDigitChars 10 (digitsOf n) 0 = n :=
    Nat.ofDigitChars_toDigits (by decide) (by decide)
  rw [Nat.ofDigitChars_eq_foldl] at hread
  rw [natOfDigits_eq_foldl]
  simpa only [digitValue, Nat.add_comm] using hread

/-- The digits before some others count with a power of ten. -/
theorem natOfDigits_append (high low : List Char) :
    natOfDigits (high ++ low) = natOfDigits low + 10 ^ low.length * natOfDigits high := by
  simp only [natOfDigits, joined_eq_positional, List.reverse_append, List.map_append, positional_append,
    List.length_map, List.length_reverse]

theorem natOfDigits_zeros (n : Nat) : natOfDigits (zeros n) = 0 := by
  induction n with
  | zero => rw [natOfDigits_eq_foldl]; rfl
  | succ n ih =>
    have hcons : zeros (n + 1) = ['0'] ++ zeros n := rfl
    have hzero : natOfDigits ['0'] = 0 := by rw [natOfDigits_eq_foldl]; rfl
    rw [hcons, natOfDigits_append, ih, hzero, Nat.mul_zero]

/-- Digits that are laid out around the point denote their number at its power of ten. -/
theorem denotes_layPositional (hds : IsDigits ds) (e : Int) :
    Denotes (plain.layPositional ds (ds.length + e)) (natOfDigits ds * 10 ^ e) := by
  unfold layPositional
  split
  · -- zeros behind the digits
    obtain ⟨k, rfl⟩ : ∃ k : Nat, e = k := ⟨e.toNat, by omega⟩
    have hwhole : IsDigits (ds ++ zeros k) :=
      ⟨List.append_ne_nil_of_left_ne_nil hds.1 _,
        List.forall_mem_append.mpr ⟨hds.2, fun _ => isDigit_of_mem_zeros⟩⟩
    have h := Denotes.whole hwhole .none
    have hzeros : (zeros k).length = k := List.length_replicate
    rw [natOfDigits_append, natOfDigits_zeros, hzeros] at h
    simpa [plain, mul_comm] using h
  split
  · -- the point among the digits
    obtain ⟨p, hp⟩ : ∃ p : Nat, (ds.length : Int) + e = p := ⟨(ds.length + e).toNat, by omega⟩
    have hbehind : (ds.drop p).length = -e := by rw [List.length_drop]; omega
    have hne : ¬(ds.take p = [] ∧ ds.drop p = []) := fun h => hds.1 <| by
      rw [← List.take_append_drop p ds, h.1, h.2, List.append_nil]
    have h := Denotes.pointed (fun ch hch => hds.2 ch (List.mem_of_mem_take hch))
      (fun ch hch => hds.2 ch (List.mem_of_mem_drop hch)) hne .none
    rw [List.take_append_drop, List.append_nil, hbehind, zero_sub, neg_neg] at h
    rwa [hp, Int.toNat_natCast]
  · -- zeros between the point and the digits
    obtain ⟨z, hz⟩ : ∃ z : Nat, -((ds.length : Int) + e) = z := ⟨(-(ds.length + e)).toNat, by omega⟩
    have hzero : ∀ ch ∈ ['0'], ch.isDigit = true := List.forall_mem_singleton.mpr rfl
    have hbehind : ((zeros z ++ ds).length : Int) = -e := by
      rw [List.length_append, zeros, List.length_replicate]
      omega
    have hvalue : natOfDigits (['0'] ++ (zeros z ++ ds)) = natOfDigits ds := by
      have hcons : ['0'] ++ (zeros z ++ ds) = zeros (z + 1) ++ ds := rfl
      rw [hcons, natOfDigits_append, natOfDigits_zeros, Nat.mul_zero, Nat.add_zero]
    have hdigits : ∀ ch ∈ zeros z ++ ds, ch.isDigit = true :=
      List.forall_mem_append.mpr ⟨fun _ => isDigit_of_mem_zeros, hds.2⟩
    have h := Denotes.pointed hzero hdigits (by simp) .none
    rw [hvalue, hbehind, List.append_nil, zero_sub, neg_neg] at h
    rwa [hz, Int.toNat_natCast]

/-- The digits of a decimal that is written without a power of ten denote it. -/
theorem denotes_magnitude (d : Digits) : Denotes (plain.magnitude d) d.value := by
  have h := denotes_layPositional (isDigits_digitsOf d.mantissa) d.exponent
  rw [natOfDigits_digitsOf] at h
  exact h

/-! ### The number -/

/-- The number that is written for a magnitude, by its bits. -/
def unsignedValue (bits : Nat) : ℚ :=
  if bits = 0 then 0 else ((Binary.ofBits bits).shortest plain.tie).value

theorem denotes_unsigned (bits : Nat) : Denotes (plain.unsigned bits) (unsignedValue bits) := by
  unfold unsigned unsignedValue
  split
  · have hzero : '0' :: plain.wholeEnd.toList = digitsOf 0 := rfl
    have h := Denotes.whole (isDigits_digitsOf 0) .none
    rw [natOfDigits_digitsOf, List.append_nil] at h
    simpa [hzero] using h
  · exact denotes_magnitude _

/-- What is written for a magnitude above zero lies in its interval. -/
theorem covers_unsignedValue (hpos : 0 < bits) (hlt : bits < 2 ^ 63) :
    (Binary.ofBits bits).Covers (unsignedValue bits) := by
  rw [unsignedValue, if_neg hpos.ne']
  exact Binary.covers_shortest (Binary.isDouble_ofBits hpos hlt).pos _

theorem unsignedValue_pos (hpos : 0 < bits) (hlt : bits < 2 ^ 63) : 0 < unsignedValue bits := by
  have hm := (Binary.isDouble_ofBits hpos hlt).pos
  have hlow : 0 < (Binary.ofBits bits).low := by unfold Binary.low; split <;> omega
  have hunit := (Binary.ofBits bits).unit_pos
  exact lt_of_lt_of_le (by positivity) (covers_unsignedValue hpos hlt).low_le

/-- The number that is written tells the magnitude. -/
theorem unsignedValue_injective {a b : Nat} (ha : a < 2 ^ 63) (hb : b < 2 ^ 63)
    (h : unsignedValue a = unsignedValue b) : a = b := by
  have hzero : unsignedValue 0 = 0 := if_pos rfl
  rcases Nat.eq_zero_or_pos a with rfl | ha_pos
  · rcases Nat.eq_zero_or_pos b with rfl | hb_pos
    · rfl
    · rw [hzero] at h
      exact absurd h (unsignedValue_pos hb_pos hb).ne
  · rcases Nat.eq_zero_or_pos b with rfl | hb_pos
    · rw [hzero] at h
      exact absurd h (unsignedValue_pos ha_pos ha).ne'
    · have hcovers := covers_unsignedValue ha_pos ha
      rw [h] at hcovers
      exact Binary.ofBits_injective ha hb <| (Binary.isDouble_ofBits ha_pos ha).eq_of_covers
        (Binary.isDouble_ofBits hb_pos hb) hcovers (covers_unsignedValue hb_pos hb)

/-! ### The text -/

/-- A magnitude starts with a digit or the point. -/
theorem exists_unsigned_cons (bits : Nat) : ∃ ch rest, plain.unsigned bits = ch :: rest ∧ IsNumeralStart ch :=
  (denotes_unsigned bits).exists_cons

/-- The text of a finite number starts with a minus, a digit or the point. -/
theorem exists_text_cons (hx : x.isFinite = true) :
    ∃ ch rest, (plain.text x).toList = ch :: rest ∧ (ch = '-' ∨ IsNumeralStart ch) := by
  obtain ⟨ch, rest, hunsigned, hstart⟩ := exists_unsigned_cons (x.toBits.toNat % 2 ^ 63)
  rw [toList_text plain hx, hunsigned]
  unfold sign
  split
  · exact ⟨'-', _, rfl, .inl rfl⟩
  · exact ⟨ch, rest, rfl, .inr hstart⟩

theorem not_isNumeralStart_minus : ¬ IsNumeralStart '-' := by
  rintro (h | h) <;> cases h

/-- A minus before one of two equal texts stands before the other too. -/
theorem sign_append_inj {a b : Nat} (h : sign x ++ plain.unsigned a = sign y ++ plain.unsigned b) :
    sign x = sign y ∧ plain.unsigned a = plain.unsigned b := by
  obtain ⟨c, cs, ha, hc⟩ := exists_unsigned_cons a
  obtain ⟨d, ds, hb, hd⟩ := exists_unsigned_cons b
  rw [ha, hb] at h ⊢
  unfold sign at h ⊢
  split at h <;> split at h
  · rename_i hx hy
    rw [if_pos hx, if_pos hy]
    exact ⟨rfl, (List.cons.inj h).2⟩
  · obtain ⟨rfl, -⟩ := List.cons.inj h
    exact absurd hd not_isNumeralStart_minus
  · obtain ⟨rfl, -⟩ := List.cons.inj h
    exact absurd hc not_isNumeralStart_minus
  · rename_i hx hy
    rw [if_neg hx, if_neg hy]
    exact ⟨rfl, h⟩

theorem sign_eq_iff : sign x = sign y ↔ (x.toBits.toNat / 2 ^ 63 = 1 ↔ y.toBits.toNat / 2 ^ 63 = 1) := by
  unfold sign
  split <;> split <;> simp_all

/-- **Distinct finite numbers have distinct texts.** -/
theorem plain_text_injective (hx : x.isFinite = true) (hy : y.isFinite = true)
    (h : plain.text x = plain.text y) : x = y := by
  have htext := congrArg String.toList h
  rw [toList_text plain hx, toList_text plain hy] at htext
  obtain ⟨hsign, hunsigned⟩ := sign_append_inj htext
  have hvalue : unsignedValue _ = unsignedValue _ :=
    (hunsigned ▸ denotes_unsigned _).unique (denotes_unsigned _)
  have hmagnitude := unsignedValue_injective (Nat.mod_lt _ (by decide)) (Nat.mod_lt _ (by decide)) hvalue
  have hbits : x.toBits.toNat = y.toBits.toNat := by
    have := x.toBits.toNat_lt
    have := y.toBits.toNat_lt
    rw [sign_eq_iff] at hsign
    omega
  exact Float.toBits_inj.mp (UInt64.toNat_inj.mp hbits)

/-- The two zeros are told apart. -/
example : plain.text (-0) = "-0" ∧ plain.text 0 = "0" := by decide +kernel

end ExprForest.Decimal.Format

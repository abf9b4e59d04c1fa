import ExprForest.Proofs.Decimal.Rounding

namespace ExprForest.Decimal

/-!
# Which decimals are finite as doubles

The double nearest to `m · 10^e` is made in several ways: `m` and the power of ten are multiplied or divided
with one rounding, both are doubles and one operation gives the result, or powers of two around the number
show that it is far out of the range.  All of them agree on which numbers are finite.

* `two_zpow_le_ten_zpow`, `ten_zpow_le_two_zpow`, `two_zpow_div_three_le` — powers of two around powers of
  ten, and `overflow_le_mul_ten_zpow`, `mul_ten_zpow_lt_overflow` for the numbers between them;
* `Unpacked.packsFinite_div_iff`, `Unpacked.packsFinite_ofScientific_iff` — quotients, and decimals with one
  rounding;
* `Unpacked.IsSmall` — operands whose products and quotients are finite in any case, such as whole numbers of
  53 bits and the powers of ten that are doubles;
* `isFinite_ofScientific_iff`, `isFinite_nearest_iff` — put together: a decimal is finite exactly if it is
  below `overflow`;
* `IsUnsigned.eq_infinity` — all others are infinity.
-/

open Float.Model (UnpackedFloat Format totalExponent)
open Float.Model.UnpackedFloat (Accuracy ExtendedMantissa Sign roundWithAccuracy accuracyOfFraction
  divCore packComponents unpackMantissa_packComponents unpackExponent_packComponents
  unpackSign_packComponents)

/-! ### Powers of two and of ten -/

variable {m n : Nat} {e k : Int}

/-- A number is at least its highest power of two. -/
theorem two_zpow_log2_le (hm : m ≠ 0) : (2 : ℚ) ^ (m.log2 : Int) ≤ m := by
  rw [zpow_natCast]
  exact_mod_cast Nat.log2_self_le hm

/-- A number is less than the next power of two. -/
theorem lt_two_zpow_log2 (m : Nat) : (m : ℚ) < 2 ^ ((m.log2 : Int) + 1) := by
  have h : (m : ℚ) < ((2 ^ (m.log2 + 1) : Nat) : ℚ) := by exact_mod_cast Nat.lt_log2_self
  push_cast at h
  exact_mod_cast h

theorem two_zpow_three_mul (e : Int) : (2 : ℚ) ^ (3 * e) = 8 ^ e := by
  rw [zpow_mul]
  norm_num

/-- Ten is more than three bits. -/
theorem two_zpow_le_ten_zpow (he : 0 ≤ e) : (2 : ℚ) ^ (3 * e) ≤ 10 ^ e := by
  rw [two_zpow_three_mul]
  exact zpow_le_zpow_left₀ he (by norm_num) (by norm_num)

theorem ten_zpow_le_two_zpow (he : e ≤ 0) : (10 : ℚ) ^ e ≤ 2 ^ (3 * e) := by
  rw [two_zpow_three_mul]
  obtain ⟨k, rfl⟩ := Int.exists_eq_neg_ofNat he
  rw [zpow_neg, zpow_neg, zpow_natCast, zpow_natCast]
  exact inv_anti₀ (by positivity) (pow_le_pow_left₀ (by norm_num) (by norm_num) k)

/-- Three times ten are less than ten bits. -/
theorem two_zpow_div_three_le (he : e ≤ 0) : (2 : ℚ) ^ (10 * e / 3) ≤ 10 ^ e := by
  have hthird : 10 * e / 3 * 3 ≤ 10 * e := Int.ediv_mul_le _ (by decide)
  have hcube : ((2 : ℚ) ^ (10 * e / 3)) ^ 3 ≤ (10 ^ e) ^ 3 := by
    obtain ⟨k, rfl⟩ := Int.exists_eq_neg_ofNat he
    calc ((2 : ℚ) ^ (10 * (-(k : Int)) / 3)) ^ 3 = 2 ^ (10 * (-(k : Int)) / 3 * 3) := by
          rw [zpow_mul]
          norm_cast
      _ ≤ 2 ^ (10 * (-(k : Int))) := zpow_le_zpow_right₀ one_le_two hthird
      _ = ((1024 : ℚ) ^ k)⁻¹ := by
          rw [zpow_mul, zpow_neg, zpow_natCast]
          norm_num
      _ ≤ ((1000 : ℚ) ^ k)⁻¹ :=
          inv_anti₀ (by positivity) (pow_le_pow_left₀ (by norm_num) (by norm_num) k)
      _ = (10 ^ (-(k : Int))) ^ 3 := by
          rw [zpow_neg, zpow_natCast, inv_pow, ← pow_mul, mul_comm k 3, pow_mul]
          norm_num
  exact le_of_pow_le_pow_left₀ (by decide) (by positivity) hcube

/-- The highest power of two and a power of ten may show that their product is too large. -/
theorem overflow_le_mul_ten_zpow (hm : m ≠ 0) (he : 0 ≤ e) (h : 1024 ≤ (m.log2 : Int) + 3 * e) :
    overflow ≤ (m : ℚ) * 10 ^ e := by
  refine overflow_le_of_le h ?_
  rw [zpow_add₀ two_ne_zero]
  exact mul_le_mul (two_zpow_log2_le hm) (two_zpow_le_ten_zpow he) (by positivity) (by positivity)

theorem overflow_le_mul_ten_zpow_of_nonpos (hm : m ≠ 0) (he : e ≤ 0)
    (h : 1024 ≤ (m.log2 : Int) + 10 * e / 3) : overflow ≤ (m : ℚ) * 10 ^ e := by
  refine overflow_le_of_le h ?_
  rw [zpow_add₀ two_ne_zero]
  exact mul_le_mul (two_zpow_log2_le hm) (two_zpow_div_three_le he) (by positivity) (by positivity)

theorem mul_ten_zpow_lt_overflow (he : e ≤ 0) (h : (m.log2 : Int) + 1 + 3 * e ≤ 1023) :
    (m : ℚ) * 10 ^ e < overflow := by
  refine lt_overflow_of_lt h ?_
  rw [zpow_add₀ two_ne_zero]
  exact mul_lt_mul (lt_two_zpow_log2 m) (ten_zpow_le_two_zpow he) (by positivity) (by positivity)

/-- Whole numbers of 53 bits times the powers of ten that are doubles. -/
theorem mul_ten_zpow_lt_overflow_of_le (hm : m < 2 ^ 53) (he : e ≤ 22) :
    (m : ℚ) * 10 ^ e < overflow := by
  have hmantissa : (m : ℚ) < 2 ^ (53 : Int) := by exact_mod_cast hm
  have hten : (10 : ℚ) ^ e ≤ 2 ^ (88 : Int) := by
    calc (10 : ℚ) ^ e ≤ 10 ^ (22 : Int) := zpow_le_zpow_right₀ (by norm_num) he
      _ ≤ 2 ^ (88 : Int) := by norm_num
  refine lt_overflow_of_lt (k := 53 + 88) (by decide) ?_
  rw [zpow_add₀ two_ne_zero]
  exact mul_lt_mul hmantissa hten (by positivity) (by positivity)

namespace Unpacked

/-! ### Quotients -/

theorem le_log2_of_le {k : Nat} (h : 2 ^ k ≤ m) : k ≤ m.log2 :=
  (Nat.le_log2 (Nat.ne_of_gt ((Nat.two_pow_pos k).trans_le h))).mpr h

/-- A quotient has at least 53 bits if the dividend has 53 more than the divisor. -/
theorem le_log2_div {a b : Nat} (hb : 0 < b) (h : 2 ^ (b.log2 + 53) ≤ a) : 52 ≤ (a / b).log2 := by
  refine le_log2_of_le ((Nat.le_div_iff_mul_le hb).mpr ?_)
  calc 2 ^ 52 * b ≤ 2 ^ 52 * 2 ^ (b.log2 + 1) := Nat.mul_le_mul_left _ Nat.lt_log2_self.le
    _ = 2 ^ (b.log2 + 53) := by
        rw [← Nat.pow_add]
        congr 1
        omega
    _ ≤ a := h

/-- The remainder tells the two bits behind a quotient. -/
theorem standsFor_div {a b : Nat} (hb : 0 < b) :
    StandsFor (.ofMantissaAndAccuracy (a / b) (accuracyOfFraction (a % b) b)) ((a : ℚ) / b) := by
  have hb' : (0 : ℚ) < b := by exact_mod_cast hb
  have hquotient : (a : ℚ) / b = ((a / b : Nat) : ℚ) + ((a % b : Nat) : ℚ) / b := by
    have hsum : (b : ℚ) * ((a / b : Nat) : ℚ) + ((a % b : Nat) : ℚ) = a := by
      exact_mod_cast Nat.div_add_mod a b
    rw [← hsum]
    field_simp
  have hmod : ((a % b : Nat) : ℚ) < b := by exact_mod_cast Nat.mod_lt a hb
  rw [hquotient, accuracyOfFraction]
  split
  · rename_i hzero
    refine .exact ?_
    rw [hzero, Nat.cast_zero, zero_div, add_zero]
  · rename_i hne
    have hpos : (0 : ℚ) < ((a % b : Nat) : ℚ) / b := by
      have : (0 : ℚ) < ((a % b : Nat) : ℚ) := by exact_mod_cast Nat.pos_of_ne_zero hne
      positivity
    have hone : ((a % b : Nat) : ℚ) / b < 1 := (div_lt_one hb').mpr hmod
    cases hcompare : compare (2 * (a % b)) b with
    | lt =>
      have hlt : (2 : ℚ) * ((a % b : Nat) : ℚ) < b := by exact_mod_cast Nat.compare_eq_lt.mp hcompare
      have hhalf : ((a % b : Nat) : ℚ) / b < 1 / 2 := by
        rw [div_lt_div_iff₀ hb' two_pos]
        linarith
      exact .belowHalf (by linarith) (by linarith)
    | eq =>
      have heq : (2 : ℚ) * ((a % b : Nat) : ℚ) = b := by exact_mod_cast Nat.compare_eq_eq.mp hcompare
      have hhalf : ((a % b : Nat) : ℚ) / b = 1 / 2 := by
        rw [div_eq_div_iff hb'.ne' two_ne_zero]
        linarith
      exact .half (by rw [hhalf])
    | gt =>
      have hgt : (b : ℚ) < 2 * ((a % b : Nat) : ℚ) := by exact_mod_cast Nat.compare_eq_gt.mp hcompare
      have hhalf : 1 / 2 < ((a % b : Nat) : ℚ) / b := by
        rw [div_lt_div_iff₀ two_pos hb']
        linarith
      exact .aboveHalf (by linarith) (by linarith)

/-- A quotient of numbers above zero is finite exactly if it is below `overflow`. -/
theorem packsFinite_div_iff {m₁ m₂ : Nat} {e₁ e₂ : Int} (hm₁ : 0 < m₁) (hm₂ : 0 < m₂) :
    packsFinite (UnpackedFloat.div .binary64 (.finite .positive m₁ e₁ hm₁)
      (.finite .positive m₂ e₂ hm₂)) = true ↔ (m₁ : ℚ) / m₂ * 2 ^ (e₁ - e₂) < overflow := by
  -- the exponent of the quotient, which is low enough for 53 bits, and how far the dividend is shifted
  obtain ⟨t, ht⟩ : ∃ t, t = min (e₁ - e₂)
      (max ((m₁.log2 : Int) + 1 + e₁ - (m₂.log2 + 1 + e₂) - 53) (-1074)) := ⟨_, rfl⟩
  obtain ⟨s, hs⟩ : ∃ s, s = (e₁ - e₂ - t).toNat := ⟨_, rfl⟩
  have hcore : divCore .binary64 m₁ e₁ m₂ e₂ =
      (m₁ * 2 ^ s / m₂, t, accuracyOfFraction (m₁ * 2 ^ s % m₂) m₂) := by
    have htarget : Format.targetExponent .binary64 (totalExponent m₁ e₁ - totalExponent m₂ e₂) =
        max ((m₁.log2 : Int) + 1 + e₁ - (m₂.log2 + 1 + e₂) - 53) (-1074) := by
      simp [Format.targetExponent, totalExponent, Format.mantissaBits, Format.minExponent]
    rw [divCore, htarget, ← ht, ← hs, Nat.shiftLeft_eq]
  have hdiv : UnpackedFloat.div .binary64 (.finite .positive m₁ e₁ hm₁) (.finite .positive m₂ e₂ hm₂) =
      roundWithAccuracy .binary64 .positive (m₁ * 2 ^ s / m₂) t
        (accuracyOfFraction (m₁ * 2 ^ s % m₂) m₂) := by
    rw [UnpackedFloat.div, hcore]
    rfl
  have hexponent : t ≤ max (((m₁ * 2 ^ s / m₂ : Nat).log2 : Int) + 1 + t - 53) (-1074) := by
    by_cases hlow : t ≤ -1074
    · exact le_max_of_le_right hlow
    · have hbits : 2 ^ (m₂.log2 + 53) ≤ m₁ * 2 ^ s := by
        calc 2 ^ (m₂.log2 + 53) ≤ 2 ^ (m₁.log2 + s) :=
              Nat.pow_le_pow_right Nat.two_pos (by omega)
          _ = 2 ^ m₁.log2 * 2 ^ s := Nat.pow_add _ _ _
          _ ≤ m₁ * 2 ^ s := Nat.mul_le_mul_right _ (Nat.log2_self_le hm₁.ne')
      have hlog := le_log2_div hm₂ hbits
      omega
  have hvalue : ((m₁ * 2 ^ s : Nat) : ℚ) / m₂ * 2 ^ t = (m₁ : ℚ) / m₂ * 2 ^ (e₁ - e₂) := by
    have hsplit : e₁ - e₂ = (s : Int) + t := by omega
    push_cast
    rw [hsplit, zpow_add₀ two_ne_zero, zpow_natCast]
    ring
  rw [hdiv, packsFinite_roundWithAccuracy_iff (standsFor_div hm₂) hexponent, hvalue]

/-! ### Decimals -/

/-- A product with a power of ten, in which the other factor is written with 53 bits more. -/
theorem packsFinite_mul_powerOfTen_iff (hm : 0 < m) (k : Nat) :
    packsFinite (roundWithAccuracy .binary64 .positive (m * 2 ^ 53 * 10 ^ k) (-53) .exact) = true ↔
      (m : ℚ) * 10 ^ k < overflow := by
  have hmany : 2 ^ 53 ≤ m * 2 ^ 53 * 10 ^ k := by
    have hpos : 0 < m * 10 ^ k := Nat.mul_pos hm (Nat.pow_pos (by decide))
    nlinarith
  have hlog := le_log2_of_le hmany
  have hvalue : ((m * 2 ^ 53 * 10 ^ k : Nat) : ℚ) * 2 ^ (-53 : Int) = m * 10 ^ k := by
    push_cast
    rw [zpow_neg]
    norm_num
    ring
  rw [packsFinite_roundWithAccuracy_iff (.exact rfl) (by omega), hvalue]

/-- The number `m · 10^e` is finite exactly if it is below `overflow`. -/
theorem packsFinite_ofScientific_iff (m : Nat) (e : Int) :
    packsFinite (UnpackedFloat.ofScientific .binary64 m e) = true ↔ (m : ℚ) * 10 ^ e < overflow := by
  unfold UnpackedFloat.ofScientific
  have hbits : ((2 : Int) ^ Format.binary64.exponentBits) = 2048 := rfl
  rw [hbits]
  split_ifs with hm hlarge hsmall hsign
  · rw [hm, Nat.cast_zero, zero_mul]
    exact iff_of_true rfl overflow_pos
  · exact iff_of_false Bool.false_ne_true
      (not_lt.mpr (overflow_le_mul_ten_zpow hm (by omega) (by omega)))
  · exact iff_of_true rfl (mul_ten_zpow_lt_overflow (by omega) (by omega))
  · have hmul : UnpackedFloat.mul .binary64
        (.finite .positive (m <<< Format.binary64.mantissaBits) (-Format.binary64.mantissaBits)
          (by simpa [Nat.pos_iff_ne_zero] using hm))
        (.finite .positive (10 ^ e.toNat) 0 (Nat.pow_pos (by decide))) =
        roundWithAccuracy .binary64 .positive (m * 2 ^ 53 * 10 ^ e.toNat) (-53) .exact := by
      rw [← Nat.shiftLeft_eq]
      rfl
    obtain ⟨k, rfl⟩ := Int.eq_ofNat_of_zero_le hsign
    rw [hmul, Int.toNat_natCast, packsFinite_mul_powerOfTen_iff (Nat.pos_of_ne_zero hm),
      zpow_natCast]
  · have hvalue : (m : ℚ) / ((10 ^ (-e).toNat : Nat) : ℚ) * 2 ^ ((0 : Int) - 0) = m * 10 ^ e := by
      obtain ⟨k, rfl⟩ := Int.exists_eq_neg_ofNat (Int.le_of_lt (Int.not_le.mp hsign))
      rw [neg_neg, Int.toNat_natCast, zpow_neg, zpow_natCast]
      push_cast
      simp [div_eq_mul_inv]
    rw [packsFinite_div_iff, hvalue]

/-! ### Small operands -/

variable {u : UnpackedFloat}

/-- Whether a number is zero or finite with a plus, with a mantissa of at most 53 bits and an exponent up to
    a bound. -/
inductive IsSmall (k : Int) : UnpackedFloat → Prop where
  | zero :
      IsSmall k (.zero .positive)
  | finite {m : Nat} {e : Int} {h : 0 < m} :
      m < 2 ^ 53 → e ≤ k →
      IsSmall k (.finite .positive m e h)

/-- Whole numbers of at most 53 bits. -/
theorem isSmall_ofNat (hn : n < 2 ^ 53) : IsSmall 1 (UnpackedFloat.ofNat .binary64 n) := by
  unfold UnpackedFloat.ofNat UnpackedFloat.ofInt UnpackedFloat.normalize
  split
  · rename_i hlt
    have hneg := Int.compare_eq_lt.mp hlt
    omega
  · exact .zero
  · rw [Int.toNat_natCast, UnpackedFloat.round]
    generalize Format.targetExponent .binary64 (totalExponent n 0) = t
    -- the number is shifted up, and its exponent goes down as far
    obtain ⟨s, hs⟩ : ∃ s, s = (0 - t).toNat := ⟨_, rfl⟩
    have hdecrease : UnpackedFloat.decreaseExponent n 0 t = (n * 2 ^ s, -(s : Int)) := by
      rw [UnpackedFloat.decreaseExponent, ← hs, Nat.shiftLeft_eq, zero_sub]
    rw [hdecrease]
    dsimp only
    have hlog : (n * 2 ^ s).log2 ≤ 52 + s := by
      rcases Nat.eq_zero_or_pos n with rfl | hpos
      · simp
      · have hlt : n * 2 ^ s < 2 ^ (53 + s) := by
          rw [Nat.pow_add]
          exact Nat.mul_lt_mul_of_pos_right hn (Nat.two_pow_pos s)
        have hne : n * 2 ^ s ≠ 0 := (Nat.mul_pos hpos (Nat.two_pow_pos s)).ne'
        have := (Nat.log2_lt hne).mpr hlt
        omega
    have hexponent : -(s : Int) + dropped (n * 2 ^ s) (-s) ≤ 0 := by
      rw [dropped]
      omega
    rcases roundWithAccuracy_cases (n * 2 ^ s) (-s) .exact with ⟨-, h⟩ | ⟨_, hlt, h⟩ | ⟨-, h⟩
    · rw [h]
      exact .zero
    · rw [h]
      exact .finite hlt (by omega)
    · rw [h]
      exact .finite (by decide) (by omega)

/-- The fields of a double tell its bounds. -/
theorem isSmall_unpack {exponent : BitVec 11} {mantissa : BitVec 52} (hne : exponent ≠ -1#11)
    (hexponent : (exponent.toNat : Int) - 1075 ≤ k) (hlow : -1074 ≤ k) :
    IsSmall k (UnpackedFloat.unpack .binary64
      (packComponents .binary64 .positive exponent mantissa)) := by
  have hbias : ((Format.binary64.exponentBias : Nat) : Int) = 1023 := rfl
  unfold UnpackedFloat.unpack
  simp only [unpackMantissa_packComponents, unpackExponent_packComponents, unpackSign_packComponents,
    if_neg hne]
  split
  · rename_i hzero
    split
    · exact .zero
    · refine .finite (mantissa.isLt.trans (by decide)) ?_
      rw [hzero, hbias]
      show (0 : Int) - (1023 + 52) + 1 ≤ k
      omega
  · refine .finite (1#1 ++ mantissa).isLt ?_
    rw [hbias]
    push_cast
    omega

/-- Packing keeps the bounds. -/
theorem IsSmall.pack (hu : IsSmall k u) (hlow : -1074 ≤ k) (hhigh : k < 972) :
    IsSmall k (UnpackedFloat.unpack .binary64 (UnpackedFloat.pack .binary64 u)) := by
  have hbias : ((Format.binary64.exponentBias : Nat) : Int) = 1023 := rfl
  cases hu with
  | zero => exact isSmall_unpack (by decide) (by simp; omega) hlow
  | @finite m e hm hlt he =>
    unfold UnpackedFloat.pack
    dsimp only
    rw [hbias]
    split
    · rename_i hlarge
      push_cast at hlarge
      omega
    · rename_i hfits
      push_cast at hfits
      have hbiased : (e + 1023 + 52).toNat < 2 ^ 11 := by omega
      split
      · apply isSmall_unpack _ _ hlow
        · intro hexponent
          have hvalue := congrArg BitVec.toNat hexponent
          simp at hvalue
          omega
        · push_cast
          rw [BitVec.toNat_ofNat, Nat.mod_eq_of_lt hbiased]
          omega
      · exact isSmall_unpack (by decide) (by simp; omega) hlow

/-- A product of small numbers is finite. -/
theorem IsSmall.packsFinite_mul (hu : IsSmall 1 u) (hm : 0 < m) (hlt : m < 2 ^ 53) (he : e ≤ 22) :
    packsFinite (UnpackedFloat.mul .binary64 u (.finite .positive m e hm)) = true := by
  cases hu with
  | zero =>
    have hzero : UnpackedFloat.mul .binary64 (.zero .positive) (.finite .positive m e hm) =
        .zero .positive := rfl
    rw [hzero]
    rfl
  | @finite m' e' hm' hlt' he' =>
    have hmul : UnpackedFloat.mul .binary64 (.finite .positive m' e' hm') (.finite .positive m e hm) =
        roundWithAccuracy .binary64 .positive (m' * m) (e' + e) .exact := rfl
    have hlog : (m' * m).log2 < 106 := by
      rw [Nat.log2_lt (Nat.mul_pos hm' hm).ne']
      calc m' * m < 2 ^ 53 * 2 ^ 53 := Nat.mul_lt_mul'' hlt' hlt
        _ = 2 ^ 106 := by rw [← Nat.pow_add]
    have hexponent : e' + e + (dropped (m' * m) (e' + e) : Int) < 900 := by
      rw [dropped]
      omega
    rw [hmul]
    exact packsFinite_of_exponent_lt (by omega)

/-- A quotient of small numbers is finite. -/
theorem IsSmall.packsFinite_div (hu : IsSmall 1 u) (hm : 0 < m) (he : -52 ≤ e) :
    packsFinite (UnpackedFloat.div .binary64 u (.finite .positive m e hm)) = true := by
  cases hu with
  | zero =>
    have hzero : UnpackedFloat.div .binary64 (.zero .positive) (.finite .positive m e hm) =
        .zero .positive := rfl
    rw [hzero]
    rfl
  | @finite m' e' hm' hlt' he' =>
    have hone : (1 : ℚ) ≤ m := by exact_mod_cast hm
    have hdividend : (m' : ℚ) < 2 ^ (53 : Int) := by exact_mod_cast hlt'
    have hquotient : (m' : ℚ) / m < 2 ^ (53 : Int) :=
      (div_le_self (by positivity) hone).trans_lt hdividend
    rw [packsFinite_div_iff]
    refine lt_overflow_of_lt (k := 53 + (e' - e)) (by omega) ?_
    rw [zpow_add₀ two_ne_zero]
    exact mul_lt_mul_of_pos_right hquotient (by positivity)

end Unpacked

/-! ### Doubles -/

/-- Whether a number is in the bounds of the powers of ten that are doubles. -/
def isSmallPower : UnpackedFloat → Bool
  | .finite .positive m e _ => m < 2 ^ 53 && -52 ≤ e && e ≤ 22
  | _ => false

theorem isSmallPower_powerOfTen : ∀ (e : Nat) (_ : e < Float.exactlyRepresentablePowersOfTen.size),
    isSmallPower Float.exactlyRepresentablePowersOfTen[e].toModel.unpack = true := by
  decide

/-- The powers of ten that are doubles. -/
theorem exists_powerOfTen {e : Nat} (he : e < Float.exactlyRepresentablePowersOfTen.size) :
    ∃ m k hm, Float.exactlyRepresentablePowersOfTen[e].toModel.unpack = .finite .positive m k hm ∧
      m < 2 ^ 53 ∧ -52 ≤ k ∧ k ≤ 22 := by
  have h := isSmallPower_powerOfTen e he
  unfold isSmallPower at h
  split at h
  · rename_i hunpack
    simp only [Bool.and_eq_true, decide_eq_true_eq] at h
    exact ⟨_, _, _, hunpack, h.1.1, h.1.2, h.2⟩
  · cases h

/-- **The range of decimals.**  A double made from `m` and a power of ten is finite exactly if their product
    is below `overflow`. -/
theorem isFinite_ofScientific_iff (m : Nat) (negative : Bool) (e : Nat) :
    (Float.ofScientific m negative e).isFinite = true ↔
      (m : ℚ) * 10 ^ (if negative then -(e : Int) else e) < overflow := by
  unfold Float.ofScientific
  split
  · rename_i hexact
    -- both factors are doubles, and one operation gives the value
    have hm : Unpacked.IsSmall 1 m.toUInt64.toFloat.toModel.unpack := by
      refine (Unpacked.isSmall_ofNat ?_).pack (by decide) (by decide)
      exact (Nat.mod_le _ _).trans_lt hexact.1
    obtain ⟨n, f, hn, hpower, hlt, hlow, hhigh⟩ := exists_powerOfTen (Nat.lt_succ_of_le hexact.2)
    refine iff_of_true ?_ ?_
    · dsimp only
      split
      · have h := hm.packsFinite_div hn hlow
        rw [← hpower] at h
        exact h
      · have h := hm.packsFinite_mul hn hlt hhigh
        rw [← hpower] at h
        exact h
    · refine mul_ten_zpow_lt_overflow_of_le hexact.1 ?_
      have := hexact.2
      split <;> omega
  · have h := Unpacked.packsFinite_ofScientific_iff m (if negative then Int.negOfNat e else Int.ofNat e)
    have he : (if negative then Int.negOfNat e else Int.ofNat e) =
        if negative then -(e : Int) else e := by
      cases negative
      · rfl
      · exact Int.negOfNat_eq
    rw [← he]
    exact h

theorem isFinite_infinity : infinity.isFinite = false :=
  rfl

/-- **The range of doubles.**  The double nearest to `m · 10^e` is finite exactly if `m · 10^e` is below
    `overflow`. -/
theorem isFinite_nearest_iff (m : Nat) (e : Int) :
    (nearest m e).isFinite = true ↔ (m : ℚ) * 10 ^ e < overflow := by
  have hzero : (0 : Float).isFinite = true := by rfl
  unfold nearest
  dsimp only
  by_cases hm : m = 0
  · rw [if_pos hm, hm, Nat.cast_zero, zero_mul]
    exact iff_of_true hzero overflow_pos
  rw [if_neg hm]
  by_cases hlarge : 1200 < (m.log2 : Int) + (if e < 0 then 10 * e / 3 else 3 * e)
  · -- a power of two below the number is too large
    rw [if_pos hlarge, isFinite_infinity]
    refine iff_of_false Bool.false_ne_true (not_lt.mpr ?_)
    by_cases he : e < 0
    · rw [if_pos he] at hlarge
      exact overflow_le_mul_ten_zpow_of_nonpos hm he.le (by omega)
    · rw [if_neg he] at hlarge
      exact overflow_le_mul_ten_zpow hm (by omega) (by omega)
  rw [if_neg hlarge]
  by_cases hsmall : (m.log2 : Int) + 3 * e < -1200
  · -- a power of two above the number is small
    rw [if_pos hsmall]
    exact iff_of_true hzero (mul_ten_zpow_lt_overflow (by omega) (by omega))
  rw [if_neg hsmall]
  by_cases he : e < 0
  · have h := isFinite_ofScientific_iff m true e.natAbs
    have hexponent : -((e.natAbs : Nat) : Int) = e := by omega
    rw [if_pos he]
    rwa [if_pos rfl, hexponent] at h
  · have h := isFinite_ofScientific_iff m false e.natAbs
    have hexponent : ((e.natAbs : Nat) : Int) = e := by omega
    rw [if_neg he]
    rwa [if_neg Bool.false_ne_true, hexponent] at h

/-- The only double with a plus that is not finite is infinity. -/
theorem IsUnsigned.eq_infinity {x : Float} (hx : IsUnsigned x) (h : x.isFinite = false) :
    x = infinity := by
  have hunpack : x.toModel.unpack = infinity.toModel.unpack := by
    have hinfinity : infinity.toModel.unpack = .infinity .positive := rfl
    have hfinite : x.toModel.unpack.isFinite = false := h
    unfold IsUnsigned at hx
    rw [hinfinity]
    generalize x.toModel.unpack = u at hx hfinite ⊢
    cases hx with
    | infinity => rfl
    | zero => cases hfinite
    | finite => cases hfinite
  have hbits := (Float.Model.UnpackedFloat.unpack_inj_of_valid x.toModel.valid
    infinity.toModel.valid).mp hunpack
  exact Float.toBits_inj.mp (UInt64.toBitVec_inj.mp hbits)

end ExprForest.Decimal

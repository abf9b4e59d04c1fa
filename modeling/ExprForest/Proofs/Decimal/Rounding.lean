import ExprForest.Proofs.Decimal.Unsigned
import Mathlib

namespace ExprForest.Decimal

/-!
# Where rounding leaves the range of doubles

A number is rounded to a mantissa of at most 53 bits by dropping bits, of which two are kept to tell how to
round.  The double is infinite if the exponent is too large by then.

* `overflow` — the least number that is rounded to infinity;
* `Unpacked.StandsFor` — the numbers that a mantissa and its two further bits may stand for, with
  `Unpacked.StandsFor.shiftRight` for dropping bits and `Unpacked.StandsFor.le_roundedMantissa_iff` for
  rounding;
* `Unpacked.roundWithAccuracy_cases` — the mantissa and the exponent that rounding leaves;
* `Unpacked.packsFinite_finite` — which exponents are in the range, with a lemma for rounding to an exponent
  below, at and above the greatest one;
* `Unpacked.packsFinite_roundWithAccuracy_iff` — put together: a rounded number is finite exactly if the
  number was below `overflow`.
-/

open Float.Model (UnpackedFloat Format totalExponent)
open Float.Model.UnpackedFloat (Accuracy ExtendedMantissa Sign roundWithAccuracy shiftToTargetExponent
  shiftToExponent packComponents unpackMantissa_packComponents unpackExponent_packComponents)

/-- The least number that is rounded to infinity: halfway between the greatest double and what would follow
    it. -/
def overflow : ℚ :=
  2 ^ 1024 - 2 ^ 970

variable {k : Int} {v : ℚ}

/-- Written with the exponent of the greatest doubles. -/
theorem overflow_eq : overflow = (2 ^ 53 - 1 / 2) * 2 ^ 971 := by
  have hall : (2 : ℚ) ^ 1024 = 2 ^ 53 * 2 ^ 971 := by rw [← pow_add]
  have hhalf : (2 : ℚ) ^ 971 = 2 * 2 ^ 970 := by rw [← pow_succ']
  rw [overflow, hall, hhalf]
  generalize (2 : ℚ) ^ 970 = half
  ring

theorem overflow_le : overflow ≤ 2 ^ 1024 :=
  sub_le_self _ (by positivity)

theorem le_overflow : (2 : ℚ) ^ 1023 ≤ overflow := by
  have hdouble : (2 : ℚ) ^ 1024 = 2 * 2 ^ 1023 := by rw [← pow_succ']
  have hle : (2 : ℚ) ^ 970 ≤ 2 ^ 1023 := pow_le_pow_right₀ one_le_two (by decide)
  rw [overflow, hdouble]
  generalize (2 : ℚ) ^ 1023 = large at hle ⊢
  generalize (2 : ℚ) ^ 970 = small at hle ⊢
  linarith

theorem overflow_pos : 0 < overflow :=
  lt_of_lt_of_le (by positivity) le_overflow

/-- A power of two below a number may show that it is too large. -/
theorem overflow_le_of_le (hk : 1024 ≤ k) (h : (2 : ℚ) ^ k ≤ v) : overflow ≤ v := by
  have hpower : (2 : ℚ) ^ 1024 ≤ 2 ^ k := by
    rw [← zpow_natCast]
    exact zpow_le_zpow_right₀ one_le_two (by push_cast; omega)
  exact overflow_le.trans (hpower.trans h)

/-- A power of two above a number may show that it is small enough. -/
theorem lt_overflow_of_lt (hk : k ≤ 1023) (h : v < (2 : ℚ) ^ k) : v < overflow := by
  have hpower : (2 : ℚ) ^ k ≤ 2 ^ 1023 := by
    rw [← zpow_natCast]
    exact zpow_le_zpow_right₀ one_le_two (by push_cast; omega)
  exact h.trans_le (hpower.trans le_overflow)

namespace Unpacked

variable {em : ExtendedMantissa} {accuracy : Accuracy} {x : ℚ} {m : Nat} {e : Int}

/-! ### Mantissas with two further bits -/

/-- Whether a number is what a mantissa and its two further bits tell: the mantissa itself, or something
    between it and its successor, below, at or above the middle. -/
inductive StandsFor : ExtendedMantissa → ℚ → Prop where
  | exact {q : Nat} {x : ℚ} :
      x = q →
      StandsFor ⟨q, false, false⟩ x
  | belowHalf {q : Nat} {x : ℚ} :
      q < x → x < q + 1 / 2 →
      StandsFor ⟨q, false, true⟩ x
  | half {q : Nat} {x : ℚ} :
      x = q + 1 / 2 →
      StandsFor ⟨q, true, false⟩ x
  | aboveHalf {q : Nat} {x : ℚ} :
      q + 1 / 2 < x → x < q + 1 →
      StandsFor ⟨q, true, true⟩ x

/-- The mantissa is the number without its fraction. -/
theorem StandsFor.bounds (h : StandsFor em x) : em.mantissa ≤ x ∧ x < em.mantissa + 1 := by
  cases h with
  | exact hx => constructor <;> simp only [hx] <;> linarith
  | belowHalf hlo hhi => constructor <;> dsimp only <;> linarith
  | half hx => constructor <;> simp only [hx] <;> linarith
  | aboveHalf hlo hhi => constructor <;> dsimp only <;> linarith

theorem shiftRightOne_even (k : Nat) (r s : Bool) :
    ExtendedMantissa.shiftRightOne ⟨2 * k, r, s⟩ = ⟨k, false, r || s⟩ := by
  simp [ExtendedMantissa.shiftRightOne]

theorem shiftRightOne_odd (k : Nat) (r s : Bool) :
    ExtendedMantissa.shiftRightOne ⟨2 * k + 1, r, s⟩ = ⟨k, true, r || s⟩ := by
  have hhalf : (2 * k + 1) / 2 = k := by omega
  simp [ExtendedMantissa.shiftRightOne, hhalf]

/-- Half of a number has a mantissa of one bit less. -/
theorem StandsFor.shiftRightOne (h : StandsFor em x) : StandsFor em.shiftRightOne (x / 2) := by
  obtain ⟨q, r, s⟩ := em
  -- the bit that is dropped from the mantissa tells on which side of the middle the half lies
  obtain ⟨k, rfl | rfl⟩ := Nat.even_or_odd' q
  · rw [shiftRightOne_even]
    cases h with
    | exact hx =>
      push_cast at hx
      exact .exact (by linarith)
    | belowHalf hlo hhi =>
      push_cast at hlo hhi
      exact .belowHalf (by linarith) (by linarith)
    | half hx =>
      push_cast at hx
      exact .belowHalf (by linarith) (by linarith)
    | aboveHalf hlo hhi =>
      push_cast at hlo hhi
      exact .belowHalf (by linarith) (by linarith)
  · rw [shiftRightOne_odd]
    cases h with
    | exact hx =>
      push_cast at hx
      exact .half (by linarith)
    | belowHalf hlo hhi =>
      push_cast at hlo hhi
      exact .aboveHalf (by linarith) (by linarith)
    | half hx =>
      push_cast at hx
      exact .aboveHalf (by linarith) (by linarith)
    | aboveHalf hlo hhi =>
      push_cast at hlo hhi
      exact .aboveHalf (by linarith) (by linarith)

theorem shiftRight_succ (em : ExtendedMantissa) (n : Nat) : em >>> (n + 1) = (em >>> n).shiftRightOne :=
  rfl

/-- Bits are dropped for powers of two. -/
theorem StandsFor.shiftRight (h : StandsFor em x) (n : Nat) : StandsFor (em >>> n) (x / 2 ^ n) := by
  induction n with
  | zero =>
    rw [pow_zero, div_one]
    exact h
  | succ n ih =>
    rw [shiftRight_succ, pow_succ, ← div_div]
    exact ih.shiftRightOne

theorem mantissa_shiftRight (em : ExtendedMantissa) (n : Nat) :
    (em >>> n).mantissa = em.mantissa / 2 ^ n := by
  induction n with
  | zero =>
    rw [pow_zero, Nat.div_one]
    rfl
  | succ n ih =>
    rw [shiftRight_succ, pow_succ, ← Nat.div_div_eq_div_mul, ← ih]
    rfl

@[simp] theorem mantissa_ofMantissaAndAccuracy (m : Nat) (accuracy : Accuracy) :
    (ExtendedMantissa.ofMantissaAndAccuracy m accuracy).mantissa = m := by
  rcases accuracy with _ | _ | _ | _ <;> rfl

/-- Rounding adds one at most. -/
theorem roundedMantissa_bounds (em : ExtendedMantissa) :
    em.mantissa ≤ em.roundedMantissa ∧ em.roundedMantissa ≤ em.mantissa + 1 := by
  obtain ⟨q, r, s⟩ := em
  have hmod := Nat.mod_lt q Nat.two_pos
  cases r <;> cases s <;>
    simp only [ExtendedMantissa.roundedMantissa, ExtendedMantissa.accuracy,
      Accuracy.roundToNearestEven] <;>
    omega

/-- Rounding reaches an even number from half a step below it on, since it is to the even number that the
    middle is rounded. -/
theorem StandsFor.le_roundedMantissa_iff (h : StandsFor em x) (n : Nat) :
    2 * n ≤ em.roundedMantissa ↔ 2 * (n : ℚ) - 1 / 2 ≤ x := by
  have hx := h.bounds
  have hr := roundedMantissa_bounds em
  rcases (by omega : 2 * n ≤ em.mantissa ∨ em.mantissa + 2 ≤ 2 * n ∨ em.mantissa + 1 = 2 * n) with
    hle | hlt | heq
  · have hle' : 2 * (n : ℚ) ≤ em.mantissa := by exact_mod_cast hle
    exact iff_of_true (hle.trans hr.1) (by linarith)
  · have hlt' : (em.mantissa : ℚ) + 2 ≤ 2 * n := by exact_mod_cast hlt
    exact iff_of_false (by omega) (by linarith)
  · -- one below the even number, the further bits decide
    have heq' : (em.mantissa : ℚ) + 1 = 2 * n := by exact_mod_cast heq
    cases h with
    | @exact q _ hx =>
      have hrounded : (⟨q, false, false⟩ : ExtendedMantissa).roundedMantissa = q := rfl
      dsimp only at heq heq'
      exact iff_of_false (by omega) (by linarith)
    | @belowHalf q _ hlo hhi =>
      have hrounded : (⟨q, false, true⟩ : ExtendedMantissa).roundedMantissa = q := rfl
      dsimp only at heq heq'
      exact iff_of_false (by omega) (by linarith)
    | @half q _ hx =>
      have hrounded : (⟨q, true, false⟩ : ExtendedMantissa).roundedMantissa = q + q % 2 := rfl
      dsimp only at heq heq'
      exact iff_of_true (by omega) (by linarith)
    | @aboveHalf q _ hlo hhi =>
      have hrounded : (⟨q, true, true⟩ : ExtendedMantissa).roundedMantissa = q + 1 := rfl
      dsimp only at heq heq'
      exact iff_of_true (by omega) (by linarith)

/-! ### Exponents -/

/-- The exponent that a number is rounded to: its mantissa gets 53 bits, or fewer at the lower end of the
    range. -/
theorem targetExponent_eq (m : Nat) (e : Int) :
    Format.targetExponent .binary64 (totalExponent m e) = max (m.log2 + 1 + e - 53) (-1074) := by
  simp [Format.targetExponent, totalExponent, Format.mantissaBits, Format.minExponent]

/-- Nothing is dropped from a mantissa of at most 53 bits. -/
theorem shiftToTargetExponent_of_lt (hm : m < 2 ^ 53) (he : -1074 ≤ e) :
    shiftToTargetExponent .binary64 m e .exact = (⟨m, false, false⟩, e) := by
  have hlog : m.log2 ≤ 52 := by
    rcases Nat.eq_zero_or_pos m with rfl | hpos
    · decide
    · exact Nat.le_of_lt_succ ((Nat.log2_lt hpos.ne').mpr hm)
  have hshift : (max (m.log2 + 1 + e - 53) (-1074) - e).toNat = 0 := by omega
  rw [shiftToTargetExponent, targetExponent_eq, shiftToExponent, hshift]
  simp only [Nat.cast_zero, add_zero]
  rfl

/-- One bit is dropped from the least mantissa of 54 bits. -/
theorem shiftToTargetExponent_of_eq (he : -1074 ≤ e) :
    shiftToTargetExponent .binary64 (2 ^ 53) e .exact = (⟨2 ^ 52, false, false⟩, e + 1) := by
  have hshift : (max (((2 ^ 53 : Nat).log2 : Int) + 1 + e - 53) (-1074) - e).toNat = 1 := by
    rw [Nat.log2_two_pow]
    omega
  rw [shiftToTargetExponent, targetExponent_eq, shiftToExponent, hshift]
  rfl

/-- How many bits are dropped. -/
def dropped (m : Nat) (e : Int) : Nat :=
  (max ((m.log2 : Int) + 1 + e - 53) (-1074) - e).toNat

/-- The mantissa to which a number is rounded at first. -/
def firstMantissa (m : Nat) (e : Int) (accuracy : Accuracy) : Nat :=
  (ExtendedMantissa.ofMantissaAndAccuracy m accuracy >>> dropped m e).roundedMantissa

theorem firstMantissa_bounds (m : Nat) (e : Int) (accuracy : Accuracy) :
    m / 2 ^ dropped m e ≤ firstMantissa m e accuracy ∧
      firstMantissa m e accuracy ≤ m / 2 ^ dropped m e + 1 := by
  have h := roundedMantissa_bounds (ExtendedMantissa.ofMantissaAndAccuracy m accuracy >>> dropped m e)
  rwa [mantissa_shiftRight, mantissa_ofMantissaAndAccuracy] at h

/-- What is left has at most 53 bits. -/
theorem div_dropped_lt (m : Nat) (e : Int) : m / 2 ^ dropped m e < 2 ^ 53 := by
  rw [Nat.div_lt_iff_lt_mul (Nat.two_pow_pos _), ← Nat.pow_add]
  have hbits : m.log2 + 1 ≤ 53 + dropped m e := by
    rw [dropped]
    omega
  exact Nat.lt_log2_self.trans_le (Nat.pow_le_pow_right Nat.two_pos hbits)

/-- What rounding leaves: nothing, the rounded mantissa, or half of it where it got a bit more. -/
theorem roundWithAccuracy_cases (m : Nat) (e : Int) (accuracy : Accuracy) :
    (firstMantissa m e accuracy = 0 ∧
      roundWithAccuracy .binary64 .positive m e accuracy = .zero .positive) ∨
    (∃ h : 0 < firstMantissa m e accuracy, firstMantissa m e accuracy < 2 ^ 53 ∧
      roundWithAccuracy .binary64 .positive m e accuracy =
        .finite .positive (firstMantissa m e accuracy) (e + dropped m e) h) ∨
    (firstMantissa m e accuracy = 2 ^ 53 ∧
      roundWithAccuracy .binary64 .positive m e accuracy =
        .finite .positive (2 ^ 52) (e + dropped m e + 1) (Nat.two_pow_pos 52)) := by
  have hfirst : shiftToTargetExponent .binary64 m e accuracy =
      (ExtendedMantissa.ofMantissaAndAccuracy m accuracy >>> dropped m e, e + dropped m e) := by
    rw [shiftToTargetExponent, targetExponent_eq]
    rfl
  have hexponent : -1074 ≤ e + (dropped m e : Int) := by
    rw [dropped]
    omega
  have hbounds := firstMantissa_bounds m e accuracy
  have hlt := div_dropped_lt m e
  have hround : roundWithAccuracy .binary64 .positive m e accuracy =
      if h : (shiftToTargetExponent .binary64 (firstMantissa m e accuracy) (e + dropped m e)
          .exact).1.mantissa = 0 then .zero .positive
      else .finite .positive _ (shiftToTargetExponent .binary64 (firstMantissa m e accuracy)
          (e + dropped m e) .exact).2 (Nat.pos_of_ne_zero h) := by
    rw [roundWithAccuracy, hfirst]
    rfl
  rcases (by omega : firstMantissa m e accuracy = 0 ∨
      (0 < firstMantissa m e accuracy ∧ firstMantissa m e accuracy < 2 ^ 53) ∨
      firstMantissa m e accuracy = 2 ^ 53) with hzero | ⟨hpos, hsmall⟩ | heq
  · refine .inl ⟨hzero, ?_⟩
    rw [hround, hzero, shiftToTargetExponent_of_lt (Nat.two_pow_pos 53) hexponent]
    rfl
  · refine .inr (.inl ⟨hpos, hsmall, ?_⟩)
    simp only [hround, shiftToTargetExponent_of_lt hsmall hexponent]
    exact dif_neg hpos.ne'
  · refine .inr (.inr ⟨heq, ?_⟩)
    simp only [hround, heq, shiftToTargetExponent_of_eq hexponent]
    exact dif_neg (by decide)

/-! ### The range -/

/-- Whether a number is still finite when it is packed into a double. -/
def packsFinite (u : UnpackedFloat) : Bool :=
  (UnpackedFloat.unpack .binary64 (UnpackedFloat.pack .binary64 u)).isFinite

theorem packsFinite_components {sign : Sign} {exponent : BitVec 11} {mantissa : BitVec 52}
    (h : exponent ≠ -1#11) :
    (UnpackedFloat.unpack .binary64 (packComponents .binary64 sign exponent mantissa)).isFinite
      = true := by
  unfold UnpackedFloat.unpack
  simp only [unpackMantissa_packComponents, unpackExponent_packComponents, if_neg h]
  split
  · split <;> rfl
  · rfl

/-- The exponents of finite doubles end at 971. -/
theorem packsFinite_finite {sign : Sign} (hm : 0 < m) :
    packsFinite (.finite sign m e hm) = true ↔ e < 972 := by
  unfold packsFinite UnpackedFloat.pack
  dsimp only
  have hbias : ((Format.binary64.exponentBias : Nat) : Int) = 1023 := rfl
  split
  · rename_i hlarge
    have hinfinite : (UnpackedFloat.unpack .binary64
        (UnpackedFloat.packedInfinity .binary64 sign)).isFinite = false := by
      unfold UnpackedFloat.packedInfinity UnpackedFloat.unpack
      simp only [unpackMantissa_packComponents, unpackExponent_packComponents]
      rfl
    rw [hinfinite]
    refine iff_of_false Bool.false_ne_true ?_
    rw [hbias] at hlarge
    push_cast at hlarge
    omega
  · rename_i hsmall
    rw [hbias] at hsmall
    push_cast at hsmall
    refine iff_of_true ?_ (by omega)
    split
    · apply packsFinite_components
      intro hexponent
      have hvalue := congrArg BitVec.toNat hexponent
      simp at hvalue
      omega
    · exact packsFinite_components (by decide)

/-- What is left of a number is at least its first 53 bits, unless its exponent is the least one. -/
theorem le_div_dropped (he : e ≤ m.log2 + 1 + e - 53) (hlow : -1074 ≤ m.log2 + 1 + e - 53) :
    2 ^ 52 ≤ m / 2 ^ dropped m e := by
  have hbits : 52 + dropped m e = m.log2 := by
    rw [dropped]
    omega
  have hm : m ≠ 0 := by
    rintro rfl
    simp at hbits
  rw [Nat.le_div_iff_mul_le (Nat.two_pow_pos _), ← Nat.pow_add, hbits]
  exact Nat.log2_self_le hm

/-- A number that is rounded to a low exponent is finite, since the rounding adds one to it at most. -/
theorem packsFinite_of_exponent_lt (h : e + (dropped m e : Int) < 971) :
    packsFinite (roundWithAccuracy .binary64 .positive m e accuracy) = true := by
  rcases roundWithAccuracy_cases m e accuracy with ⟨-, hround⟩ | ⟨_, -, hround⟩ | ⟨-, hround⟩
  · rw [hround]
    rfl
  · rw [hround, packsFinite_finite]
    omega
  · rw [hround, packsFinite_finite]
    omega

/-- At the greatest exponent, a number is finite unless it is rounded to a mantissa of one bit more. -/
theorem packsFinite_iff_of_exponent_eq (h : e + (dropped m e : Int) = 971) :
    packsFinite (roundWithAccuracy .binary64 .positive m e accuracy) = true ↔
      firstMantissa m e accuracy < 2 ^ 53 := by
  rcases roundWithAccuracy_cases m e accuracy with
    ⟨hzero, hround⟩ | ⟨_, hless, hround⟩ | ⟨hmax, hround⟩
  · rw [hround, hzero]
    exact iff_of_true rfl (by omega)
  · rw [hround, packsFinite_finite]
    exact iff_of_true (by omega) hless
  · rw [hround, packsFinite_finite, hmax]
    exact iff_of_false (by omega) (by omega)

/-- Above the greatest exponent, only zero is finite. -/
theorem not_packsFinite_of_exponent_gt (h : 971 < e + (dropped m e : Int))
    (hm : 0 < firstMantissa m e accuracy) :
    ¬packsFinite (roundWithAccuracy .binary64 .positive m e accuracy) = true := by
  rcases roundWithAccuracy_cases m e accuracy with ⟨hzero, -⟩ | ⟨_, -, hround⟩ | ⟨-, hround⟩
  · omega
  · rw [hround, packsFinite_finite]
    omega
  · rw [hround, packsFinite_finite]
    omega

/-- **The range of doubles.**  A number whose exponent only grows in rounding is finite as a double exactly
    if it is below `overflow`. -/
theorem packsFinite_roundWithAccuracy_iff
    (hx : StandsFor (.ofMantissaAndAccuracy m accuracy) x)
    (he : e ≤ max ((m.log2 : Int) + 1 + e - 53) (-1074)) :
    packsFinite (roundWithAccuracy .binary64 .positive m e accuracy) = true ↔
      x * 2 ^ e < overflow := by
  have hexponent : e + (dropped m e : Int) = max ((m.log2 : Int) + 1 + e - 53) (-1074) := by
    rw [dropped]
    omega
  -- the number is what is left, with the exponent that it is rounded to
  have hvalue : x * 2 ^ e = x / 2 ^ dropped m e * 2 ^ (e + (dropped m e : Int)) := by
    rw [zpow_add₀ two_ne_zero, zpow_natCast]
    field_simp
  have hleft := hx.shiftRight (dropped m e)
  obtain ⟨hlower, hupper⟩ := hleft.bounds
  rw [mantissa_shiftRight, mantissa_ofMantissaAndAccuracy] at hlower hupper
  rw [hvalue]
  rcases lt_trichotomy (e + (dropped m e : Int)) 971 with hsmall | heq | hlarge
  · refine iff_of_true (packsFinite_of_exponent_lt hsmall) ?_
    have hmany : x / 2 ^ dropped m e < 2 ^ (53 : Int) := by
      refine hupper.trans_le ?_
      exact_mod_cast Nat.succ_le_of_lt (div_dropped_lt m e)
    refine lt_overflow_of_lt (k := 53 + (e + dropped m e)) (by omega) ?_
    rw [zpow_add₀ two_ne_zero 53]
    exact mul_lt_mul_of_pos_right hmany (by positivity)
  · have hpower : (2 : ℚ) ^ (971 : Int) = 2 ^ 971 := by
      rw [← zpow_natCast]
      rfl
    have hpos : (0 : ℚ) < 2 ^ 971 := by positivity
    have hround := hleft.le_roundedMantissa_iff (2 ^ 52)
    have htwice : (2 : Nat) ^ 53 = 2 * 2 ^ 52 := rfl
    rw [packsFinite_iff_of_exponent_eq heq, ← not_le, firstMantissa, htwice, hround, heq, hpower,
      overflow_eq, not_le, mul_lt_mul_iff_left₀ hpos]
    norm_num
  · -- even the least mantissa of 53 bits is too large
    have hleast := le_div_dropped (m := m) (e := e) (by omega) (by omega)
    have hfirst := (firstMantissa_bounds m e accuracy).1
    refine iff_of_false (not_packsFinite_of_exponent_gt hlarge (by omega)) (not_lt.mpr ?_)
    have hmany : (2 : ℚ) ^ (52 : Int) ≤ x / 2 ^ dropped m e := by
      refine le_trans ?_ hlower
      exact_mod_cast hleast
    refine overflow_le_of_le (k := 52 + (e + dropped m e)) (by omega) ?_
    rw [zpow_add₀ two_ne_zero 52]
    exact mul_le_mul_of_nonneg_right hmany (by positivity)

end Unpacked

end ExprForest.Decimal

import ExprForest.Decimal.Shortest
import Mathlib

namespace ExprForest.Decimal

/-!
# Shortest digits and rounding intervals

The shortest digits of a double lie in its interval.  No number lies in the intervals of two doubles, so
these digits tell the double.

* `Binary.Covers` — the interval of a double, with its ends if the mantissa is even;
* `Binary.covers_of_contains`, `Binary.covers_shortest` — what is found on a grid lies in the interval, and so
  do the shortest digits;
* `Binary.IsDouble`, `Binary.isDouble_ofBits` — the pairs that bits encode, and `Binary.ofBits_injective`;
* `Binary.high_le_low` — the interval of the smaller of two doubles ends where that of the greater one
  begins, or before;
* `Binary.IsDouble.eq_of_covers` — one number lies in the interval of one double.
-/

/-- The number that digits stand for. -/
def Digits.value (d : Digits) : ℚ :=
  d.mantissa * 10 ^ d.exponent

namespace Binary

variable {x y : Binary} {k : Int} {n : Nat} {v : ℚ}

/-! ### The interval of a double -/

/-- A quarter of `2^q`. -/
def unit (x : Binary) : ℚ :=
  2 ^ (x.q - 2)

theorem unit_pos (x : Binary) : 0 < x.unit :=
  zpow_pos two_pos _

/-- The numbers that round to a double: those between the ends of its interval, and the ends too if the
    mantissa is even. -/
structure Covers (x : Binary) (v : ℚ) : Prop where
  low_le : x.low * x.unit ≤ v
  le_high : v ≤ x.high * x.unit
  even_of_end : v = x.low * x.unit ∨ v = x.high * x.unit → x.m % 2 = 0

theorem toNat_zpow {b : ℚ} (hb : b ≠ 0) (a : Int) : b ^ a.toNat = b ^ a * b ^ (-a).toNat := by
  rw [← zpow_natCast, ← zpow_natCast, ← zpow_add₀ hb]
  congr 1
  omega

/-- A quarter of `2^q` and the unit of a grid, in the scale of the fraction for them. -/
theorem exists_scale (x : Binary) (k : Int) :
    ∃ c : ℚ, 0 < c ∧ ((x.quarter k).1 : ℚ) = x.unit * c ∧ ((x.quarter k).2 : ℚ) = 10 ^ k * c := by
  have htwo : (2 : ℚ) ^ (x.q - 2).toNat = _ := toNat_zpow two_ne_zero _
  have hten : (10 : ℚ) ^ k.toNat = _ := toNat_zpow (by norm_num) _
  rw [neg_sub] at htwo
  refine ⟨2 ^ (2 - x.q).toNat * 10 ^ (-k).toNat, by positivity, ?_, ?_⟩
  · simp only [quarter, unit]
    push_cast
    rw [htwo]
    ring
  · simp only [quarter]
    push_cast
    rw [hten]
    ring

/-! ### What lies in the interval -/

/-- What is found to round to a double lies in its interval. -/
theorem covers_of_contains (h : x.contains k n = true) : x.Covers (n * 10 ^ k) := by
  obtain ⟨c, hc, hnum, hden⟩ := x.exists_scale k
  -- an end of the interval against a point of the grid
  have hend : ∀ a : Nat, ((a * (x.quarter k).1 : Nat) : ℚ) = a * x.unit * c := fun a => by
    push_cast
    rw [hnum, mul_assoc]
  have hpoint : ((n * (x.quarter k).2 : Nat) : ℚ) = n * 10 ^ k * c := by
    push_cast
    rw [hden, mul_assoc]
  unfold contains at h
  dsimp only at h
  split at h
  · rename_i heven
    simp only [Bool.and_eq_true, decide_eq_true_eq, ← Nat.cast_le (α := ℚ), hend, hpoint,
      mul_le_mul_iff_left₀ hc] at h
    exact ⟨h.1, h.2, fun _ => heven⟩
  · simp only [Bool.and_eq_true, decide_eq_true_eq, ← Nat.cast_lt (α := ℚ), hend, hpoint,
      mul_lt_mul_iff_left₀ hc] at h
    refine ⟨h.1.le, h.2.le, ?_⟩
    rintro (hlow | hhigh)
    · exact absurd hlow h.1.ne'
    · exact absurd hhigh h.2.ne

/-- On its finest grid the value is exact. -/
theorem value_exact (x : Binary) : x.exact.value = x.m * 2 ^ x.q := by
  have htwo : (2 : ℚ) ^ x.q.toNat = _ := toNat_zpow two_ne_zero _
  have hten : (10 : ℚ) ^ x.finest = (2 ^ (-x.q).toNat * 5 ^ (-x.q).toNat)⁻¹ := by
    have hfinest : x.finest = -((-x.q).toNat : Int) := by unfold finest; omega
    rw [hfinest, zpow_neg, zpow_natCast, ← mul_pow]
    norm_num
  rw [Digits.value, exact, hten]
  push_cast
  rw [htwo]
  field_simp

/-- The value lies between the ends. -/
theorem covers_exact (hm : 0 < x.m) : x.Covers x.exact.value := by
  have hvalue : x.exact.value = (4 * x.m : Nat) * x.unit := by
    rw [value_exact, unit, zpow_sub₀ two_ne_zero]
    push_cast
    ring
  have hlow : x.low < 4 * x.m := by unfold low; split <;> omega
  have hhigh : 4 * x.m < x.high := by unfold high; omega
  have hunit := x.unit_pos
  have hlow : (x.low : ℚ) * x.unit < x.exact.value := by rw [hvalue]; gcongr
  have hhigh : x.exact.value < x.high * x.unit := by rw [hvalue]; gcongr
  refine ⟨hlow.le, hhigh.le, ?_⟩
  rintro (h | h)
  · exact absurd h hlow.ne'
  · exact absurd h hhigh.ne

theorem covers_search (hm : 0 < x.m) (tie : Tie) (steps : Nat) : x.Covers (x.search tie steps).value := by
  induction steps with
  | zero => exact covers_exact hm
  | succ steps ih =>
    rw [search]
    split
    · rename_i d hd
      obtain ⟨n, hn, rfl⟩ := Option.map_eq_some_iff.mp hd
      exact covers_of_contains (List.find?_some hn)
    · exact ih

/-- The shortest digits of a double lie in its interval. -/
theorem covers_shortest (hm : 0 < x.m) (tie : Tie) : x.Covers (x.shortest tie).value :=
  covers_search hm tie _

/-! ### The intervals of two doubles -/

/-- The pairs that bits encode: mantissas of 53 bits, and shorter ones with the least exponent. -/
structure IsDouble (x : Binary) : Prop where
  pos : 0 < x.m
  m_lt : x.m < 2 ^ 53
  le_q : -1074 ≤ x.q
  le_m : x.q ≠ -1074 → 2 ^ 52 ≤ x.m
  narrow_iff : x.narrow = true ↔ x.m = 2 ^ 52 ∧ x.q ≠ -1074

/-- The bits of a double above zero. -/
theorem isDouble_ofBits {bits : Nat} (hpos : 0 < bits) (hlt : bits < 2 ^ 63) : (ofBits bits).IsDouble := by
  unfold ofBits
  extract_lets fraction exponent
  have hfraction : fraction < 2 ^ 52 := Nat.mod_lt _ (by decide)
  have hbits : bits = 2 ^ 52 * exponent + fraction := by omega
  clear_value fraction exponent
  split
  · constructor <;> simp <;> omega
  · constructor <;> simp <;> omega

/-- The bits that encode a pair. -/
def toBits (x : Binary) : Nat :=
  if x.m < 2 ^ 52 then x.m else x.m - 2 ^ 52 + 2 ^ 52 * (x.q + 1075).toNat

theorem toBits_ofBits {bits : Nat} (hlt : bits < 2 ^ 63) : (ofBits bits).toBits = bits := by
  unfold ofBits
  extract_lets fraction exponent
  have hfraction : fraction < 2 ^ 52 := Nat.mod_lt _ (by decide)
  have hbits : bits = 2 ^ 52 * exponent + fraction := by omega
  clear_value fraction exponent
  by_cases hexponent : exponent = 0
  · rw [if_pos hexponent, toBits, if_pos hfraction]
    dsimp only
    omega
  · rw [if_neg hexponent, toBits, if_neg (Nat.not_lt.mpr (Nat.le_add_left _ _))]
    simp only [Int.ofNat_eq_natCast, Nat.add_sub_cancel_right]
    omega

/-- The pair tells the bits. -/
theorem ofBits_injective {a b : Nat} (ha : a < 2 ^ 63) (hb : b < 2 ^ 63) (h : ofBits a = ofBits b) :
    a = b := by
  rw [← toBits_ofBits ha, h, toBits_ofBits hb]

/-- Of two doubles the one with the smaller exponent, or else with the smaller mantissa. -/
def Before (x y : Binary) : Prop :=
  x.q < y.q ∨ x.q = y.q ∧ x.m < y.m

/-- The interval of a double ends where that of a greater one begins, or before.  Where the ends meet, one
    of them is not in its interval. -/
theorem high_le_low (hx : x.IsDouble) (hy : y.IsDouble) (h : x.Before y) :
    x.high * x.unit ≤ y.low * y.unit ∧
      (x.high * x.unit = y.low * y.unit → ¬(x.m % 2 = 0 ∧ y.m % 2 = 0)) := by
  have hunit := x.unit_pos
  have hpos := hy.pos
  rcases h with hq | ⟨hq, hm⟩
  · -- the mantissa of `y` has 53 bits, and that of `x` is odd if its interval reaches up to `y`
    have hnormal : y.q ≠ -1074 := (lt_of_le_of_lt hx.le_q hq).ne'
    have hle_m := hy.le_m hnormal
    have hlow : 2 ^ 54 ≤ y.low + 1 := by
      unfold low
      split
      · omega
      · rename_i hwide
        have hne : y.m ≠ 2 ^ 52 := fun h => hwide (hy.narrow_iff.mpr ⟨h, hnormal⟩)
        omega
    have hm_lt := hx.m_lt
    have hle : x.high ≤ 2 * y.low := by
      unfold high
      omega
    have hodd : x.high = 2 * y.low → x.m % 2 = 1 := by
      unfold high
      omega
    have hdouble : 2 * x.unit ≤ y.unit := by
      have hpower : 2 * x.unit = 2 ^ (x.q - 2 + 1) := by
        rw [zpow_add_one₀ two_ne_zero, mul_comm]
        rfl
      rw [hpower]
      exact zpow_le_zpow_right₀ one_le_two (by omega)
    have hfirst : x.high * x.unit ≤ (2 * y.low : Nat) * x.unit := by gcongr
    have hsecond : ((2 * y.low : Nat) : ℚ) * x.unit ≤ y.low * y.unit := by
      push_cast
      rw [mul_comm 2, mul_assoc]
      gcongr
    refine ⟨hfirst.trans hsecond, fun heq heven => ?_⟩
    have hmeet := mul_right_cancel₀ hunit.ne' (le_antisymm hfirst (heq ▸ hsecond))
    have := hodd (by exact_mod_cast hmeet)
    omega
  · have hsame : y.unit = x.unit := by rw [unit, unit, hq]
    have hle : x.high ≤ y.low := by
      unfold high low
      split <;> omega
    rw [hsame]
    refine ⟨by gcongr, fun heq => ?_⟩
    -- the mantissas follow each other
    have hmeet : x.high = y.low := by exact_mod_cast mul_right_cancel₀ hunit.ne' heq
    unfold high low at hmeet
    split at hmeet <;> omega

theorem IsDouble.not_covers_of_before (hx : x.IsDouble) (hy : y.IsDouble) (h : x.Before y)
    (hv : x.Covers v) : ¬ y.Covers v := by
  intro hw
  obtain ⟨hle, hmeet⟩ := high_le_low hx hy h
  have hhigh : v = x.high * x.unit := le_antisymm hv.le_high (hle.trans hw.low_le)
  have hlow : v = y.low * y.unit := le_antisymm (hv.le_high.trans hle) hw.low_le
  exact hmeet (hhigh.symm.trans hlow) ⟨hv.even_of_end (.inr hhigh), hw.even_of_end (.inl hlow)⟩

/-- No number lies in the intervals of two doubles. -/
theorem IsDouble.eq_of_covers (hx : x.IsDouble) (hy : y.IsDouble) (hv : x.Covers v) (hw : y.Covers v) :
    x = y := by
  have hxy : ¬ x.Before y := fun h => hx.not_covers_of_before hy h hv hw
  have hyx : ¬ y.Before x := fun h => hy.not_covers_of_before hx h hw hv
  unfold Before at hxy hyx
  obtain ⟨hq, hm⟩ : x.q = y.q ∧ x.m = y.m := by omega
  have hnarrow : x.narrow = y.narrow := by
    rw [Bool.eq_iff_iff, hx.narrow_iff, hy.narrow_iff, hq, hm]
  cases x
  cases y
  simp_all

end Binary

end ExprForest.Decimal

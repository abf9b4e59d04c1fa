import ExprForest.Proofs.Decimal.Range

namespace ExprForest.Decimal

/-!
# What the texts of numbers denote

The text of a number denotes a rational number, and what is read of it is the double nearest to that.

* `Numeral.Scales`, `Denotes` — the power of ten behind a number, and the number as a whole;
* `exists_denotes` — every text that the lexical rules allow for a number denotes one;
* `Denotes.unique` — it denotes only one;
* `Denotes.read?_eq` — the double that is read;
* `Denotes.isFinite_iff` — it is finite exactly if the number is below `overflow`.
-/

open ExprForest.Numeral (IsDigits IsMantissa IsPower)

variable {x text : List Char} {k : Int} {q : ℚ} {c : Char}

namespace Numeral

/-- The power of ten that stands behind a number, if any, and its exponent. -/
inductive Scales : List Char → Int → Prop where
  | none :
      Scales [] 0
  | plain {c : Char} {ds : List Char} :
      c = 'e' ∨ c = 'E' → IsDigits ds →
      Scales (c :: ds) (exponentOfDigits ds)
  | plus {c : Char} {ds : List Char} :
      c = 'e' ∨ c = 'E' → IsDigits ds →
      Scales (c :: '+' :: ds) (exponentOfDigits ds)
  | minus {c : Char} {ds : List Char} :
      c = 'e' ∨ c = 'E' → IsDigits ds →
      Scales (c :: '-' :: ds) (-(exponentOfDigits ds : Int))

theorem Scales.isPower (h : Scales x k) : x = [] ∨ IsPower x := by
  cases h with
  | none => exact .inl rfl
  | plain hc hds => exact .inr (.plain hc hds)
  | plus hc hds => exact .inr (.signed hc (.inl rfl) hds)
  | minus hc hds => exact .inr (.signed hc (.inr rfl) hds)

theorem exists_scales (hx : x = [] ∨ IsPower x) : ∃ k, Scales x k := by
  rcases hx with rfl | hx
  · exact ⟨0, .none⟩
  · cases hx with
    | plain hc hds => exact ⟨_, .plain hc hds⟩
    | signed hc hs hds =>
      rcases hs with rfl | rfl
      · exact ⟨_, .plus hc hds⟩
      · exact ⟨_, .minus hc hds⟩

/-- The exponent is the one that is read. -/
theorem Scales.exponent?_eq (h : Scales x k) : exponent? x = some k := by
  cases h with
  | none => rfl
  | @plain c ds hc hds =>
    obtain ⟨d, t, rfl⟩ := List.exists_cons_of_ne_nil hds.1
    -- a digit follows the `e`, and no sign is split off
    have hstart : IsNumeralStart d := .inl (hds.2 d List.mem_cons_self)
    simp only [exponent?, if_pos hc, splitSign_of_isNumeralStart hstart, not_refused hds]
    rfl
  | plus hc hds =>
    simp only [exponent?, if_pos hc, splitSign, not_refused hds]
    rfl
  | minus hc hds =>
    simp only [exponent?, if_pos hc, splitSign, not_refused hds]
    rfl

end Numeral

/-- The number that a text denotes: its digits as a whole number, scaled by the power of ten behind them and
    down again by the number of digits behind the point. -/
inductive Denotes : List Char → ℚ → Prop where
  | whole {ds x : List Char} {k : Int} :
      IsDigits ds → Numeral.Scales x k →
      Denotes (ds ++ x) (natOfDigits ds * 10 ^ k)
  | pointed {ds fs x : List Char} {k : Int} :
      (∀ c ∈ ds, c.isDigit = true) → (∀ c ∈ fs, c.isDigit = true) → ¬(ds = [] ∧ fs = []) →
      Numeral.Scales x k →
      Denotes (ds ++ '.' :: (fs ++ x)) (natOfDigits (ds ++ fs) * 10 ^ (k - (fs.length : Int)))

/-- Every number denotes something. -/
theorem exists_denotes (h : IsNumeral text) : ∃ q, Denotes text q := by
  obtain ⟨m, x, hm, hx, rfl⟩ := ExprForest.Numeral.exists_append_of_isNumeral h
  obtain ⟨k, hk⟩ := Numeral.exists_scales hx
  cases hm with
  | whole hds => exact ⟨_, .whole hds hk⟩
  | @pointed ds fs hds hfs =>
    rw [List.append_assoc, List.cons_append]
    exact ⟨_, .pointed hds.2 hfs (fun h => hds.1 h.1) hk⟩
  | @leading fs hfs =>
    have h := @Denotes.pointed [] fs x k (by simp) hfs.2 (fun h => hfs.1 h.2) hk
    rw [List.nil_append] at h
    exact ⟨_, h⟩

/-- What denotes something starts like a number. -/
theorem Denotes.exists_cons (h : Denotes text q) : ∃ d t, text = d :: t ∧ IsNumeralStart d := by
  cases h with
  | @whole ds x _ hds _ =>
    obtain ⟨d, t, rfl⟩ := List.exists_cons_of_ne_nil hds.1
    exact ⟨d, t ++ x, rfl, .inl (hds.2 d List.mem_cons_self)⟩
  | @pointed ds fs x _ hds _ _ _ =>
    cases ds with
    | nil => exact ⟨'.', fs ++ x, rfl, .inr rfl⟩
    | cons d t => exact ⟨d, t ++ '.' :: (fs ++ x), rfl, .inl (hds d List.mem_cons_self)⟩

/-- No number starts like a word for infinity. -/
theorem toLower_ne_i_of_isNumeralStart (hc : IsNumeralStart c) : c.toLower ≠ 'i' := by
  rcases hc with hc | rfl
  · rw [toLower_of_isDigit hc]
    rintro rfl
    exact absurd hc (by decide)
  · decide

/-- The text of a number is no word for a double. -/
theorem read?_eq_of_isNumeralStart {m : Nat} {e : Int} (hc : IsNumeralStart c)
    (h : Numeral.read? (c :: text) = some (m, e)) : read? (c :: text) = some (nearest m e) := by
  unfold read?
  simp only [splitSign_of_isNumeralStart hc, h, Bool.false_eq_true, if_false, Option.map_id']
  -- the words start with a letter
  split
  · rename_i hword
    have hchars : (c :: text).map Char.toLower = ['i', 'n', 'f'] := String.ofList_injective hword
    exact absurd (List.cons.inj hchars).1 (toLower_ne_i_of_isNumeralStart hc)
  · rename_i hword
    have hchars : (c :: text).map Char.toLower = ['i', 'n', 'f', 'i', 'n', 'i', 't', 'y'] :=
      String.ofList_injective hword
    exact absurd (List.cons.inj hchars).1 (toLower_ne_i_of_isNumeralStart hc)
  · rename_i hword
    have hchars : (c :: text).map Char.toLower = ['n', 'a', 'n'] := String.ofList_injective hword
    exact absurd (List.cons.inj hchars).1 (toLower_ne_of_isNumeralStart hc)
  · rfl

/-- The digits of a number and its power of ten are those that are read. -/
theorem Denotes.numeralRead?_eq (h : Denotes text q) :
    ∃ (m : Nat) (e : Int), q = (m : ℚ) * 10 ^ e ∧ Numeral.read? text = some (m, e) := by
  cases h with
  | whole hds hk =>
    refine ⟨_, _, rfl, ?_⟩
    rw [Numeral.read?_whole hds hk.isPower, hk.exponent?_eq]
    rfl
  | pointed hds hfs hne hk =>
    refine ⟨_, _, rfl, ?_⟩
    rw [Numeral.read?_pointed hds hfs hne hk.isPower, hk.exponent?_eq]
    rfl

/-- A text denotes one number. -/
theorem Denotes.unique {p : ℚ} (hp : Denotes text p) (hq : Denotes text q) : p = q := by
  obtain ⟨m, e, rfl, hm⟩ := hp.numeralRead?_eq
  obtain ⟨n, k, rfl, hn⟩ := hq.numeralRead?_eq
  obtain ⟨rfl, rfl⟩ := Prod.mk.inj (Option.some.inj (hm.symm.trans hn))
  rfl

/-- What is read is the double nearest to the number. -/
theorem Denotes.read?_eq (h : Denotes text q) :
    ∃ (m : Nat) (e : Int), q = (m : ℚ) * 10 ^ e ∧ read? text = some (nearest m e) := by
  obtain ⟨m, e, hq, hpair⟩ := h.numeralRead?_eq
  obtain ⟨d, t, rfl, hd⟩ := h.exists_cons
  exact ⟨m, e, hq, read?_eq_of_isNumeralStart hd hpair⟩

/-- **Which numbers are finite.**  What is read of a number is finite exactly if the number is below
    `overflow`. -/
theorem Denotes.isFinite_iff {value : Float} (h : Denotes text q) (hread : read? text = some value) :
    value.isFinite = true ↔ q < overflow := by
  obtain ⟨m, e, rfl, hnearest⟩ := h.read?_eq
  obtain rfl := Option.some.inj (hnearest.symm.trans hread)
  exact isFinite_nearest_iff m e

end ExprForest.Decimal

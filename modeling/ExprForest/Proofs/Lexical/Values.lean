import ExprForest.Decimal.Reading
import ExprForest.Proofs.Lexical.Reading

namespace ExprForest.Decimal

/-!
# Number lexemes have values

Every text that the lexical rules allow for a number is one that `Decimal.read?` reads.

* `Numeral.exponent?_isSome`, `Numeral.read?_isSome` — its power of ten and the whole of it;
* `exists_read?_eq_some` — it has a value: a number starts with a digit or a point and hence has no
  sign.
-/

open ExprForest.Numeral (IsDigits IsMantissa IsPower)

variable {ds x text : List Char} {d : Char}

/-! ### Leading characters -/

/-- A run of digits is split off where no digit follows it. -/
theorem splitDigits_append (hds : ∀ c ∈ ds, c.isDigit = true)
    (hx : ∀ c t, x = c :: t → ¬c.isDigit = true) : splitDigits (ds ++ x) = (ds, x) := by
  unfold splitDigits
  rw [List.takeWhile_append_of_pos hds, List.dropWhile_append_of_pos hds]
  cases x with
  | nil => simp
  | cons c t =>
    rw [List.takeWhile_cons_of_neg (hx c t rfl), List.dropWhile_cons_of_neg (hx c t rfl),
      List.append_nil]

/-- A text that starts like a number has no sign. -/
theorem splitSign_of_isNumeralStart (hd : IsNumeralStart d) :
    splitSign (d :: text) = (false, d :: text) := by
  unfold splitSign
  split
  · rename_i h
    obtain rfl := (List.cons.inj h).1
    exact absurd hd (by simp [IsNumeralStart])
  · rename_i h
    obtain rfl := (List.cons.inj h).1
    exact absurd hd (by simp [IsNumeralStart])
  · rfl

namespace Numeral

/-- Whatever may stand behind a mantissa does not go on with a digit or a point. -/
theorem head_of_isPower (hx : x = [] ∨ IsPower x) :
    ∀ c t, x = c :: t → ¬c.isDigit = true ∧ c ≠ '.' := by
  rintro c t rfl
  obtain ⟨e, t', h, he⟩ := hx.resolve_left (List.cons_ne_nil c t) |>.head
  obtain rfl := (List.cons.inj h).1
  rcases he with rfl | rfl <;> decide

/-- The digits of a power of ten have a value. -/
theorem not_refused (hds : IsDigits ds) : (ds.isEmpty || !ds.all Char.isDigit) = false := by
  have hall : ds.all Char.isDigit = true := List.all_eq_true.mpr hds.2
  simp [hds.1, hall]

/-- A power of ten, or none, has a value. -/
theorem exponent?_isSome (hx : x = [] ∨ IsPower x) : (exponent? x).isSome = true := by
  rcases hx with rfl | hx
  · rfl
  · cases hx with
    | @plain e ds he hds =>
      obtain ⟨d, t, rfl⟩ := List.exists_cons_of_ne_nil hds.1
      -- a digit follows the `e`, and no sign is split off
      have hstart : IsNumeralStart d := .inl (hds.2 d List.mem_cons_self)
      simp only [exponent?, if_pos he, splitSign_of_isNumeralStart hstart, not_refused hds]
      rfl
    | @signed e s ds he hs hds =>
      rcases hs with rfl | rfl
      · simp only [exponent?, if_pos he, splitSign, not_refused hds]
        rfl
      · simp only [exponent?, if_pos he, splitSign, not_refused hds]
        rfl

/-- Digits without a point and what stands behind them. -/
theorem read?_whole (hds : IsDigits ds) (hx : x = [] ∨ IsPower x) :
    read? (ds ++ x) = (exponent? x).map fun e : Int => (natOfDigits ds, e) := by
  -- an `e` ends the digits, and so does the end of the text
  have hsplit := splitDigits_append hds.2 fun c t hc => (head_of_isPower hx c t hc).1
  have hne : ds.isEmpty = false := by simpa [List.isEmpty_iff] using hds.1
  unfold read?
  simp only [hsplit, hne]
  rcases hx with rfl | hx
  · simp
  · obtain ⟨e, t, rfl, he⟩ := hx.head
    rcases he with rfl | rfl <;> simp

/-- Digits with a point and what stands behind them. -/
theorem read?_pointed {fs : List Char} (hds : ∀ c ∈ ds, c.isDigit = true)
    (hfs : ∀ c ∈ fs, c.isDigit = true) (hne : ¬(ds = [] ∧ fs = [])) (hx : x = [] ∨ IsPower x) :
    read? (ds ++ '.' :: (fs ++ x)) =
      (exponent? x).map fun e : Int => (natOfDigits (ds ++ fs), e - (fs.length : Int)) := by
  have hwhole := splitDigits_append (x := '.' :: (fs ++ x)) hds (by rintro _ _ ⟨⟩; decide)
  have hdecimals := splitDigits_append hfs fun c t hc => (head_of_isPower hx c t hc).1
  have hnotBoth : (ds.isEmpty && fs.isEmpty) = false := by
    simpa [List.isEmpty_iff] using hne
  unfold read?
  simp only [hwhole, hdecimals, hnotBoth]
  rfl

/-- A number reads as a pair of a mantissa and an exponent. -/
theorem read?_isSome (h : IsNumeral text) : (read? text).isSome = true := by
  obtain ⟨m, x, hm, hx, rfl⟩ := ExprForest.Numeral.exists_append_of_isNumeral h
  have hexp := exponent?_isSome hx
  cases hm with
  | whole hds => rw [read?_whole hds hx, Option.isSome_map, hexp]
  | pointed hds hfs =>
    rw [List.append_assoc, List.cons_append, read?_pointed hds.2 hfs (fun h => hds.1 h.1) hx,
      Option.isSome_map, hexp]
  | @leading fs hfs =>
    have hread := @read?_pointed [] _ _ (by simp) hfs.2 (fun h => hfs.1 h.2) hx
    rw [List.cons_append]
    rw [List.nil_append] at hread
    rw [hread, Option.isSome_map, hexp]

end Numeral

/-- A number has a value. -/
theorem exists_read?_eq_some (h : IsNumeral text) : ∃ value, read? text = some value := by
  obtain ⟨pair, hpair⟩ := Option.isSome_iff_exists.mp (Numeral.read?_isSome h)
  obtain ⟨d, t, rfl, hd⟩ := Lexeme.exists_cons_of_isNumeral h
  rw [← Option.isSome_iff_exists]
  unfold read?
  simp only [splitSign_of_isNumeralStart hd, hpair, Option.isSome_map]
  split <;> rfl

end ExprForest.Decimal

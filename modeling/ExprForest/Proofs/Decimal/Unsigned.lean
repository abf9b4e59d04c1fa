import ExprForest.Proofs.Lexical.Values

namespace ExprForest.Decimal

/-!
# The values of numbers are unsigned

No text of a number has a negative value, minus zero or not-a-number.  Doubles are judged unpacked: the
operations that make up a value unpack their operands, compute, round and pack again.

* `Unpacked.IsUnsigned` — infinity, zero and the finite numbers with a plus; rounding, products and
  quotients stay among them, and so does packing;
* `IsUnsigned` — the same of a double: it is not below zero, not minus zero and not not-a-number;
* `isUnsigned_nearest` — the doubles nearest to `m · 10^e`;
* `IsLiteral` — the values of numbers, with `IsLiteral.isUnsigned`.
-/

open Float.Model (UnpackedFloat)
open Float.Model.UnpackedFloat (Accuracy Sign packComponents unpackMantissa_packComponents
  unpackExponent_packComponents unpackSign_packComponents)

/-! ### Unpacked doubles -/

namespace Unpacked

/-- Infinity, zero or a finite number, with a plus. -/
inductive IsUnsigned : UnpackedFloat → Prop where
  | infinity :
      IsUnsigned (.infinity .positive)
  | zero :
      IsUnsigned (.zero .positive)
  | finite {m : Nat} {e : Int} {h : 0 < m} :
      IsUnsigned (.finite .positive m e h)

/-- Whether a number is finite and above zero. -/
def isAboveZero : UnpackedFloat → Bool
  | .finite .positive _ _ _ => true
  | _ => false

variable {spec : Float.Model.Format} {u v : UnpackedFloat} {m : Nat} {e : Int}

/-- A number that is finite and above zero has a mantissa and an exponent. -/
theorem eq_finite_of_isAboveZero (h : isAboveZero u = true) :
    ∃ m e hm, u = .finite .positive m e hm := by
  unfold isAboveZero at h
  split at h
  · exact ⟨_, _, _, rfl⟩
  · exact absurd h Bool.false_ne_true

/-- What was packed with a plus is unpacked with a plus, unless it is not-a-number. -/
theorem isUnsigned_unpack {exponent : BitVec 11} {mantissa : BitVec 52}
    (h : exponent = -1#11 → mantissa = 0#52) :
    IsUnsigned (UnpackedFloat.unpack .binary64
      (packComponents .binary64 .positive exponent mantissa)) := by
  unfold UnpackedFloat.unpack
  simp only [unpackMantissa_packComponents, unpackExponent_packComponents, unpackSign_packComponents]
  split
  · rename_i hexponent
    rw [if_pos (h hexponent)]
    exact .infinity
  · split
    · split
      · exact .zero
      · exact .finite
    · exact .finite

/-- Packing keeps the plus.  A number too large to be packed becomes infinity. -/
theorem IsUnsigned.pack (hu : IsUnsigned u) :
    IsUnsigned (UnpackedFloat.unpack .binary64 (UnpackedFloat.pack .binary64 u)) := by
  cases hu with
  | infinity => exact isUnsigned_unpack fun _ => rfl
  | zero => exact isUnsigned_unpack fun _ => rfl
  | finite =>
    unfold UnpackedFloat.pack
    dsimp only
    split
    · exact isUnsigned_unpack fun _ => rfl
    · rename_i hfits
      split
      · apply isUnsigned_unpack
        -- the exponent is below the one of infinity and not-a-number
        intro hexponent
        have hvalue := congrArg BitVec.toNat hexponent
        simp at hvalue
        omega
      · exact isUnsigned_unpack fun hexponent => absurd hexponent (by decide)

/-- Rounding keeps the plus. -/
theorem isUnsigned_roundWithAccuracy (accuracy : Accuracy) :
    IsUnsigned (UnpackedFloat.roundWithAccuracy spec .positive m e accuracy) := by
  unfold UnpackedFloat.roundWithAccuracy
  dsimp only
  split
  · exact .zero
  · exact .finite

/-- A product with a number above zero keeps the plus. -/
theorem IsUnsigned.mul (hu : IsUnsigned u) (hv : isAboveZero v = true) :
    IsUnsigned (UnpackedFloat.mul spec u v) := by
  obtain ⟨n, f, hn, rfl⟩ := eq_finite_of_isAboveZero hv
  cases hu with
  | infinity => exact .infinity
  | zero => exact .zero
  | finite => exact isUnsigned_roundWithAccuracy _

/-- A quotient by a number above zero keeps the plus. -/
theorem IsUnsigned.div (hu : IsUnsigned u) (hv : isAboveZero v = true) :
    IsUnsigned (UnpackedFloat.div spec u v) := by
  obtain ⟨n, f, hn, rfl⟩ := eq_finite_of_isAboveZero hv
  cases hu with
  | infinity => exact .infinity
  | zero => exact .zero
  | finite => exact isUnsigned_roundWithAccuracy _

/-- Natural numbers have a plus. -/
theorem isUnsigned_ofNat (n : Nat) : IsUnsigned (UnpackedFloat.ofNat spec n) := by
  unfold UnpackedFloat.ofNat UnpackedFloat.ofInt UnpackedFloat.normalize
  split
  · rename_i hlt
    have hneg := Int.compare_eq_lt.mp hlt
    omega
  · exact .zero
  · exact isUnsigned_roundWithAccuracy _

/-- The numbers `m · 10^e` have a plus. -/
theorem isUnsigned_ofScientific (m : Nat) (e : Int) :
    IsUnsigned (UnpackedFloat.ofScientific spec m e) := by
  unfold UnpackedFloat.ofScientific
  split_ifs
  · exact .zero
  · exact .infinity
  · exact .zero
  · exact IsUnsigned.finite.mul rfl
  · exact IsUnsigned.finite.div rfl

/-- What has a plus is not below zero. -/
theorem IsUnsigned.lt_zero (hu : IsUnsigned u) : u.lt (.zero .positive) = false := by
  cases hu <;> rfl

/-- What has a plus is not not-a-number. -/
theorem IsUnsigned.isNaN (hu : IsUnsigned u) : u.isNaN = false := by
  cases hu <;> rfl

end Unpacked

/-! ### Doubles -/

/-- A double with a plus: infinity, zero or a finite number above zero. -/
def IsUnsigned (x : Float) : Prop :=
  Unpacked.IsUnsigned x.toModel.unpack

variable {x y : Float} {d : Char}

/-- A double with a plus is not below zero. -/
theorem IsUnsigned.not_lt_zero (hx : IsUnsigned x) : ¬x < 0 := by
  intro hlt
  have hunpacked : x.toModel.unpack.lt (.zero .positive) = true := of_decide_eq_true hlt
  rw [Unpacked.IsUnsigned.lt_zero hx] at hunpacked
  exact Bool.false_ne_true hunpacked

/-- A double with a plus is not minus zero. -/
theorem IsUnsigned.ne_neg_zero (hx : IsUnsigned x) : x ≠ -0 := by
  rintro rfl
  -- minus zero is told from zero by its sign alone
  have hunpacked : (-0 : Float).toModel.unpack = .zero .negative := rfl
  unfold IsUnsigned at hx
  rw [hunpacked] at hx
  cases hx

/-- A double with a plus is not not-a-number. -/
theorem IsUnsigned.isNaN_eq_false (hx : IsUnsigned x) : x.isNaN = false :=
  Unpacked.IsUnsigned.isNaN hx

/-- A product with a double above zero keeps the plus. -/
theorem IsUnsigned.mul (hx : IsUnsigned x)
    (hy : Unpacked.isAboveZero y.toModel.unpack = true) : IsUnsigned (x * y) :=
  (Unpacked.IsUnsigned.mul hx hy).pack

/-- A quotient by a double above zero keeps the plus. -/
theorem IsUnsigned.div (hx : IsUnsigned x)
    (hy : Unpacked.isAboveZero y.toModel.unpack = true) : IsUnsigned (x / y) :=
  (Unpacked.IsUnsigned.div hx hy).pack

/-- The powers of ten that are doubles are above zero. -/
theorem isAboveZero_powerOfTen : ∀ e : Fin Float.exactlyRepresentablePowersOfTen.size,
    Unpacked.isAboveZero Float.exactlyRepresentablePowersOfTen[e].toModel.unpack = true := by
  decide

/-- The doubles `m · 10^e` and `m · 10^(-e)` have a plus. -/
theorem isUnsigned_ofScientific (m : Nat) (negative : Bool) (e : Nat) :
    IsUnsigned (Float.ofScientific m negative e) := by
  unfold Float.ofScientific
  split
  · rename_i hexact
    -- both factors are doubles, and one operation gives the value
    have hm : IsUnsigned m.toUInt64.toFloat := (Unpacked.isUnsigned_ofNat _).pack
    have hpower := isAboveZero_powerOfTen ⟨e, Nat.lt_succ_of_le hexact.2⟩
    dsimp only
    split
    · exact hm.div hpower
    · exact hm.mul hpower
  · exact (Unpacked.isUnsigned_ofScientific _ _).pack

/-- Zero has a plus. -/
theorem isUnsigned_zero : IsUnsigned 0 :=
  isUnsigned_ofScientific 0 false 0

/-- The infinite double above zero has a plus. -/
theorem isUnsigned_infinity : IsUnsigned infinity := by
  have hunpacked : infinity.toModel.unpack = .infinity .positive := rfl
  unfold IsUnsigned
  rw [hunpacked]
  exact .infinity

/-- The double nearest to `m · 10^e` has a plus. -/
theorem isUnsigned_nearest (m : Nat) (e : Int) : IsUnsigned (nearest m e) := by
  unfold nearest
  dsimp only
  split_ifs
  · exact isUnsigned_zero
  · exact isUnsigned_infinity
  · exact isUnsigned_zero
  · exact isUnsigned_ofScientific _ _ _
  · exact isUnsigned_infinity
  · exact isUnsigned_zero
  · exact isUnsigned_ofScientific _ _ _

/-! ### Numbers -/

/-- Digits are neither upper nor lower case. -/
theorem toLower_of_isDigit (hd : d.isDigit = true) : d.toLower = d := by
  unfold Char.toLower
  rw [dif_neg]
  intro hupper
  simp only [Char.isDigit, Bool.and_eq_true, decide_eq_true_eq] at hd
  have hdigit := UInt32.le_iff_toNat_le.mp hd.2
  have hletter := UInt32.le_iff_toNat_le.mp hupper.1
  simp at hdigit hletter
  omega

/-- No number starts like not-a-number. -/
theorem toLower_ne_of_isNumeralStart (hd : IsNumeralStart d) : d.toLower ≠ 'n' := by
  rcases hd with hd | rfl
  · rw [toLower_of_isDigit hd]
    rintro rfl
    exact absurd hd (by decide)
  · decide

/-- The values of the texts of numbers. -/
def IsLiteral (value : Float) : Prop :=
  ∃ text, IsNumeral text ∧ read? text = some value

/-- **The values of numbers are unsigned.**  The text of a number has no sign, and what it reads as is
    infinity, zero or a finite number above zero. -/
theorem IsLiteral.isUnsigned (h : IsLiteral x) : IsUnsigned x := by
  obtain ⟨text, htext, hx⟩ := h
  obtain ⟨d, t, rfl, hd⟩ := Lexeme.exists_cons_of_isNumeral htext
  unfold read? at hx
  simp only [splitSign_of_isNumeralStart hd, Bool.false_eq_true, if_false, Option.map_id'] at hx
  -- of the words for doubles only `nan` is to be excluded
  split at hx
  · obtain rfl := Option.some.inj hx
    exact isUnsigned_infinity
  · obtain rfl := Option.some.inj hx
    exact isUnsigned_infinity
  · rename_i hnan
    have hchars : (d :: t).map Char.toLower = ['n', 'a', 'n'] := String.ofList_injective hnan
    exact absurd (List.cons.inj hchars).1 (toLower_ne_of_isNumeralStart hd)
  · obtain ⟨⟨m, e⟩, -, rfl⟩ := Option.map_eq_some_iff.mp hx
    exact isUnsigned_nearest m e

end ExprForest.Decimal

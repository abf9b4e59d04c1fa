import ExprForest.Proofs.Json.Decisions
import ExprForest.Proofs.Json.ReadBack

namespace ExprForest.Json

/-!
# Truth values and whole numbers

Which of all values are read where a truth value or a whole number of 64 bits is asked for.

* `Reader.decides_boolean` — `true` and `false` are the truth values;
* `Numeral.keep_eq`, `Numeral.exists_read_of_isWhole` — the digits of a number, and what stands behind them;
* `Numeral.OnlyDoubles` — a point or a power of ten makes a double;
* `Numeral.yields_read_of_isNatural`, `Numeral.isNatural_of_read` — the numbers that are whole numbers without
  a sign;
* `Reader.decides_natural` — those below `2^64` are read where a whole number is asked for.
-/

-- Powers are those of the core library, whatever else is imported.
attribute [local instance (high)] instPowNat

open ExprForest.Numeral (IsDigits IsPower)
open Decimal.Format (digitsOf isDigits_digitsOf natOfDigits_digitsOf)
open Grammar (Gap IsBody IsWhole IsTail IsNumber IsNatural IsValue)
open Reader (Yields Decides)

variable {α : Type} {ch : Char} {ds x text value more rest : List Char} {n : Nat}

/-! ### The head of a value -/

namespace Grammar

/-- A number begins with a minus sign or a digit. -/
theorem IsNumber.exists_cons (h : IsNumber value) :
    ∃ ch text, value = ch :: text ∧ (ch = '-' ∨ ch.isDigit = true) := by
  cases h with
  | @positive ds x hds _ =>
    obtain ⟨⟨hne, hdigits⟩, -⟩ := hds
    obtain ⟨d, ds, rfl⟩ := List.exists_cons_of_ne_nil hne
    exact ⟨d, ds ++ x, rfl, .inr (hdigits d List.mem_cons_self)⟩
  | negative _ _ => exact ⟨_, _, rfl, .inl rfl⟩

/-- No number begins like a blank or a word. -/
theorem head_of_number (h : ch = '-' ∨ ch.isDigit = true) :
    Cursor.isBlank ch = false ∧ ch ≠ 't' ∧ ch ≠ 'f' := by
  have hne : ∀ other : Char, other ≠ '-' → other.isDigit = false → ch ≠ other := by
    rintro other hminus hdigit rfl
    rcases h with h | h
    · exact hminus h
    · rw [hdigit] at h
      cases h
  refine ⟨?_, hne 't' (by decide) rfl, hne 'f' (by decide) rfl⟩
  simp only [Cursor.isBlank, Bool.or_eq_false_iff, beq_eq_false_iff_ne]
  exact ⟨⟨⟨hne ' ' (by decide) rfl, hne '\n' (by decide) rfl⟩, hne '\t' (by decide) rfl⟩,
    hne '\r' (by decide) rfl⟩

/-- No number is written with a zero before its other digits. -/
theorem digitsOf_eq_zero (n : Nat) (h : (digitsOf n).head? = some '0') : digitsOf n = ['0'] := by
  induction n using Nat.strong_induction_on with
  | _ n ih =>
    by_cases hn : n < 10
    · have hone : digitsOf n = [Nat.digitChar n] := Nat.toDigits_of_lt_base hn
      rw [hone] at h ⊢
      rw [Option.some.inj h]
    · have hsplit : digitsOf n = digitsOf (n / 10) ++ digitsOf (n % 10) := by
        have h : digitsOf (n / 10) ++ digitsOf (n % 10) = digitsOf (10 * (n / 10) + n % 10) :=
          Nat.toDigits_append_toDigits (by decide) (by omega) (Nat.mod_lt n (by decide))
        rw [h, Nat.div_add_mod]
      have hhead : (digitsOf (n / 10)).head? = some '0' := by
        rwa [hsplit, List.head?_append_of_ne_nil _ (isDigits_digitsOf _).1] at h
      have hzero := congrArg Decimal.natOfDigits (ih (n / 10) (by omega) hhead)
      rw [natOfDigits_digitsOf, Decimal.natOfDigits_eq_foldl] at hzero
      change n / 10 = 0 at hzero
      omega

/-- The digits of a number are its text. -/
theorem isNatural_toString (n : Nat) : IsNatural (toString n).toList n := by
  have hdigits : (toString n).toList = digitsOf n := by
    rw [Nat.toString_eq_repr, Nat.repr_eq_ofList_toDigits, String.toList_ofList]
    rfl
  rw [hdigits]
  exact ⟨⟨isDigits_digitsOf n, digitsOf_eq_zero n⟩, natOfDigits_digitsOf n⟩

theorem IsNatural.isNumber (h : IsNatural text n) : IsNumber text := by
  have hnumber := IsNumber.positive h.1 .nil
  rwa [List.append_nil] at hnumber

end Grammar

namespace Reader

/-! ### Truth values -/

/-- Where something else is asked for, nothing is read. -/
theorem yields_refuse (ch : Char) (expected : String) (text : List Char) :
    Yields (refuse (α := α) ch expected) text none := by
  have hunfit : ∀ r : Reader Found,
      Yields (r >>= fun found => unfit (α := α) (.invalidType found expected)) text none := by
    refine fun r => .refused fun line column y c h => ?_
    obtain ⟨found, c', -, hunfit⟩ := bind_eq_done h
    cases hunfit
  refine Yields.settle ?_
  split
  · exact hunfit _
  · split <;> exact hunfit _

/-- What begins otherwise than `true` and `false` is neither of them. -/
theorem decides_boolean_of_cons (hblank : Cursor.isBlank ch = false) (hch : ch ≠ 't' ∧ ch ≠ 'f') (gap : Gap)
    (rest : List Char) : Decides boolean (gap.chars ++ (ch :: text ++ rest)) rest
      fun b => ch :: text = (toString b).toList := by
  refine .of_refused (Yields.behind_gap (Yields.peeked ?_ hblank) gap) ?_
  · simp only [if_neg (not_or.mpr hch)]
    exact yields_refuse ch _ _
  · intro b heq
    cases b with
    | true => exact hch.1 (List.cons.inj heq).1
    | false => exact hch.2 (List.cons.inj heq).1

/-- **Truth values.**  Of all values, `true` and `false` are read. -/
theorem decides_boolean (h : IsValue value) (gap : Gap) (rest : List Char) :
    Decides boolean (gap.chars ++ (value ++ rest)) rest fun b => value = (toString b).toList := by
  cases h with
  | null => exact decides_boolean_of_cons rfl (by decide) gap rest
  | bool b =>
    have hread : Yields boolean ((toString b).toList ++ rest) (some (b, rest)) := by
      cases b with
      | true => exact .done fun line column => ⟨line, column + 4, rfl⟩
      | false => exact .done fun line column => ⟨line, column + 5, rfl⟩
    refine (Decides.of_yields (Yields.behind_gap hread gap)).congr fun b' => ?_
    cases b <;> cases b' <;> decide
  | number h =>
    obtain ⟨ch, text, rfl, hch⟩ := h.exists_cons
    obtain ⟨hblank, hword⟩ := Grammar.head_of_number hch
    exact decides_boolean_of_cons hblank hword gap rest
  | string _ => exact decides_boolean_of_cons rfl (by decide) gap rest
  | array _ => exact decides_boolean_of_cons rfl (by decide) gap rest
  | object _ => exact decides_boolean_of_cons rfl (by decide) gap rest

end Reader

/-! ### Digits -/

namespace Numeral

/-- A number with some digits behind it. -/
def continued (n : Nat) (ds : List Char) : Nat :=
  ds.foldl (fun n d => Decimal.digitValue d + 10 * n) n

theorem le_continued (n : Nat) (ds : List Char) : n ≤ continued n ds := by
  induction ds generalizing n with
  | nil => exact Nat.le_refl n
  | cons d ds ih =>
    have h := ih (Decimal.digitValue d + 10 * n)
    rw [continued, List.foldl_cons]
    exact Nat.le_trans (by omega) h

/-- All digits are kept if they stay below the bound together. -/
theorem keep_eq {bound : Nat} (hn : n < bound) (ds : List Char) :
    continued n ds < bound ∧ keep bound n ds = (continued n ds, []) ∨
      bound ≤ continued n ds ∧ (keep bound n ds).2 ≠ [] := by
  induction ds generalizing n with
  | nil => exact .inl ⟨hn, rfl⟩
  | cons d ds ih =>
    have hnext : Decimal.digitValue d + 10 * n = 10 * n + digitValue d := Nat.add_comm _ _
    rw [keep]
    by_cases hkept : 10 * n + digitValue d < bound
    · rw [if_pos hkept, continued, List.foldl_cons, hnext]
      exact ih hkept
    · rw [if_neg hkept]
      refine .inr ⟨?_, List.cons_ne_nil d ds⟩
      have hle := le_continued (Decimal.digitValue d + 10 * n) ds
      rw [continued, List.foldl_cons]
      exact Nat.le_trans (by omega) hle

/-- A run of digits ends before what is no digit. -/
theorem takeWhile_digits (hds : IsDigits ds) (hrest : ∀ ch cs, rest = ch :: cs → ch.isDigit = false) :
    (ds ++ rest).takeWhile Char.isDigit = ds := by
  have hnone : rest.takeWhile Char.isDigit = [] := by
    cases rest with
    | nil => rfl
    | cons ch cs => exact List.takeWhile_cons_of_neg (by rw [hrest ch cs rfl]; decide)
  rw [List.takeWhile_append_of_pos hds.2, hnone, List.append_nil]

/-- What stands behind the digits of a number is read next. -/
theorem exists_read_of_isWhole (hds : IsWhole ds)
    (hrest : ∀ ch cs, rest = ch :: cs → ch.isDigit = false) (negative : Bool) (line column : Nat) :
    ∃ line' column', read negative ⟨ds ++ rest, line, column⟩ =
      behindWhole negative (keep (2 ^ (64 : Nat)) 0 ds).1 (keep (2 ^ (64 : Nat)) 0 ds).2
        ⟨rest, line', column'⟩ := by
  have hrun := takeWhile_digits hds.1 hrest
  have hbehind : behindDigits (ds ++ rest) = rest := by
    rw [behindDigits, hrun, List.drop_left]
  obtain ⟨⟨hne, hdigits⟩, hzero⟩ := hds
  obtain ⟨first, second, rfl⟩ := List.exists_cons_of_ne_nil hne
  have hfirst : (!first.isDigit) = false := by rw [hdigits first List.mem_cons_self]; rfl
  have hleading : ¬(first = '0' ∧ (second ++ rest).head?.any Char.isDigit = true) := by
    rintro ⟨rfl, hsecond⟩
    obtain rfl := (List.cons.inj (hzero rfl)).2
    cases rest with
    | nil => cases hsecond
    | cons ch cs =>
      have hch := hrest ch cs rfl
      simp only [List.nil_append, List.head?_cons, Option.any_some, hch] at hsecond
      cases hsecond
  refine ⟨line, column + (first :: second).length, ?_⟩
  have hread : Cursor.digits ⟨first :: second ++ rest, line, column⟩ =
      (first :: second, ⟨rest, line, column + (first :: second).length⟩) := by
    rw [digits_eq, hrun, hbehind]
  unfold read
  simp only [hread]
  simp only [List.cons_append, hfirst, Bool.false_eq_true, if_false, if_neg hleading]
  rfl

/-! ### Whole numbers and doubles -/

/-- Whether a reader gives no whole number without a sign. -/
def OnlyDoubles (r : Reader Number) : Prop :=
  ∀ c n c', r c ≠ .done (.unsigned n) c'

variable {negative : Bool} {significand : Nat} {exponent : Int}

theorem onlyDoubles_finish : OnlyDoubles (finish negative significand exponent) := by
  intro c n c' h
  unfold finish at h
  split at h <;> cases h

theorem onlyDoubles_power : OnlyDoubles (power negative significand exponent) := by
  intro c n c' h
  unfold power at h
  split at h
  rename_i down behind _
  dsimp only at h
  split at h
  · cases h
  · split at h
    · unfold Reader.fault Reader.stopAt at h
      cases h
    · split at h
      · exact onlyDoubles_finish _ _ _ h
      · split at h <;> cases h

theorem onlyDoubles_powerOrEnd : OnlyDoubles (powerOrEnd negative significand exponent) := by
  intro c n c' h
  unfold powerOrEnd at h
  split at h
  · exact onlyDoubles_power _ _ _ h
  · exact onlyDoubles_power _ _ _ h
  · exact onlyDoubles_finish _ _ _ h

theorem onlyDoubles_decimals : OnlyDoubles (decimals negative significand exponent) := by
  intro c n c' h
  unfold decimals at h
  dsimp only at h
  split at h
  · cases h
  · unfold Reader.fault Reader.stopAt at h
    cases h
  · exact onlyDoubles_powerOrEnd _ _ _ h

/-- A point or a power of ten makes a double. -/
theorem onlyDoubles_behindWhole {left : List Char} {c c' : Cursor} (hx : IsTail x) (hne : x ≠ [])
    (hc : c.rest = x ++ more) : behindWhole negative significand left c ≠ .done (.unsigned n) c' := by
  obtain ⟨text, line, column⟩ := c
  dsimp only at hc
  subst hc
  have hpower : ∀ {x more}, IsPower x →
      behindWhole negative significand left ⟨x ++ more, line, column⟩ ≠ .done (.unsigned n) c' := by
    intro x more hx h
    cases hx with
    | plain he _ => rcases he with rfl | rfl <;> exact onlyDoubles_power _ _ _ h
    | signed he _ _ => rcases he with rfl | rfl <;> exact onlyDoubles_power _ _ _ h
  cases hx with
  | nil => exact absurd rfl hne
  | fraction _ => exact fun h => onlyDoubles_decimals _ _ _ h
  | power hx => exact hpower hx
  | both _ _ => exact fun h => onlyDoubles_decimals _ _ _ h

/-- What may follow the digits of a number does not begin with a digit. -/
theorem isDigit_head_of_isTail (hx : IsTail x) (hmore : Ends more) :
    ∀ ch cs, x ++ more = ch :: cs → ch.isDigit = false := by
  intro ch cs heq
  cases hx with
  | nil => exact (hmore ch cs heq).1
  | fraction _ => exact (List.cons.inj heq).1 ▸ rfl
  | both _ _ => exact (List.cons.inj heq).1 ▸ rfl
  | power hx =>
    cases hx with
    | plain he _ => rcases he with rfl | rfl <;> exact (List.cons.inj heq).1 ▸ rfl
    | signed he _ _ => rcases he with rfl | rfl <;> exact (List.cons.inj heq).1 ▸ rfl

/-- The digits of a whole number, with nothing behind them that belongs to the number. -/
theorem exists_read_of_ends (hds : IsWhole ds) (hmore : Ends more) (negative : Bool)
    (line column : Nat) : ∃ line' column', read negative ⟨ds ++ more, line, column⟩ =
      endOfWhole negative (keep (2 ^ (64 : Nat)) 0 ds).1 (keep (2 ^ (64 : Nat)) 0 ds).2
        ⟨more, line', column'⟩ := by
  obtain ⟨line', column', hread⟩ :=
    exists_read_of_isWhole hds (fun ch cs hcs => (hmore ch cs hcs).1) negative line column
  refine ⟨line', column', ?_⟩
  rw [hread]
  exact behindWhole_of_end _ fun ch cs hcs => (hmore ch cs hcs).2

/-- All digits of a number are kept if the number fits 64 bits. -/
theorem keep_natOfDigits (ds : List Char) :
    Decimal.natOfDigits ds < 2 ^ (64 : Nat) ∧ keep (2 ^ (64 : Nat)) 0 ds = (Decimal.natOfDigits ds, []) ∨
      2 ^ (64 : Nat) ≤ Decimal.natOfDigits ds ∧ (keep (2 ^ (64 : Nat)) 0 ds).2 ≠ [] := by
  rw [Decimal.natOfDigits_eq_foldl]
  exact keep_eq (by decide) ds

/-- A whole number of 64 bits is kept as it is. -/
theorem yields_read_of_isNatural (h : IsNatural ds n) (hn : n < 2 ^ (64 : Nat)) (hmore : Ends more) :
    Yields (read false) (ds ++ more) (some (.unsigned n, more)) := by
  obtain ⟨hds, rfl⟩ := h
  rcases keep_natOfDigits ds with ⟨-, hkeep⟩ | ⟨hle, -⟩
  · refine .done fun line column => ?_
    obtain ⟨line', column', hread⟩ := exists_read_of_ends hds hmore false line column
    rw [hkeep] at hread
    exact ⟨line', column', hread⟩
  · exact absurd hn (Nat.not_lt.mpr hle)

/-- Nothing else is read as a whole number without a sign. -/
theorem isNatural_of_read {c : Cursor} {line column : Nat} (hds : IsWhole ds) (hx : IsTail x)
    (hmore : Ends more) (h : read negative ⟨ds ++ (x ++ more), line, column⟩ = .done (.unsigned n) c) :
    negative = false ∧ x = [] ∧ IsNatural ds n ∧ n < 2 ^ (64 : Nat) := by
  by_cases hne : x = []
  · subst hne
    obtain ⟨line', column', hread⟩ := exists_read_of_ends hds hmore negative line column
    rw [List.nil_append, hread] at h
    rcases keep_natOfDigits ds with ⟨hlt, hkeep⟩ | ⟨-, hleft⟩
    · rw [hkeep] at h
      have hwhole := (Result.done.inj h).1
      cases negative with
      | false =>
        cases hwhole
        exact ⟨rfl, rfl, ⟨hds, rfl⟩, hlt⟩
      | true =>
        unfold whole at hwhole
        split at hwhole
        · contradiction
        · split at hwhole <;> cases hwhole
    · obtain ⟨d, left, hcons⟩ := List.exists_cons_of_ne_nil hleft
      rw [hcons] at h
      exact absurd h (onlyDoubles_finish _ _ _)
  · obtain ⟨line', column', hread⟩ :=
      exists_read_of_isWhole hds (isDigit_head_of_isTail hx hmore) negative line column
    rw [hread] at h
    exact absurd h (onlyDoubles_behindWhole hx hne rfl)

end Numeral

/-! ### Whole numbers among all values -/

namespace Reader

/-- What does not begin like a number is no whole number. -/
theorem decides_natural_of_cons (hblank : Cursor.isBlank ch = false) (hch : ¬(ch = '-' ∨ ch.isDigit = true))
    (gap : Gap) (rest : List Char) : Decides natural (gap.chars ++ (ch :: text ++ rest)) rest
      fun n => IsNatural (ch :: text) n ∧ n < 2 ^ (64 : Nat) := by
  refine .of_refused (Yields.behind_gap (Yields.peeked ?_ hblank) gap) ?_
  · simp only [if_neg hch]
    exact yields_refuse ch _ _
  · rintro n ⟨⟨⟨⟨-, hdigits⟩, -⟩, -⟩, -⟩
    exact hch (.inr (hdigits ch List.mem_cons_self))

/-- A number that is read as a whole number is one. -/
theorem isNatural_of_scalar (h : IsNumber (ch :: text)) (hmore : Numeral.Ends more) {line column : Nat}
    {c : Cursor} (hread : scalar ch ⟨ch :: text ++ more, line, column⟩ = .done (.number (.unsigned n)) c) :
    IsNatural (ch :: text) n ∧ n < 2 ^ (64 : Nat) := by
  generalize htext : ch :: text = value at h
  cases h with
  | @positive ds x hds hx =>
    rcases read_of_scalar hread with ⟨rfl, -⟩ | ⟨-, hread⟩
    · obtain ⟨⟨hne, hdigits⟩, -⟩ := hds
      obtain ⟨d, ds, rfl⟩ := List.exists_cons_of_ne_nil hne
      have hminus := hdigits d List.mem_cons_self
      rw [← (List.cons.inj htext).1] at hminus
      cases hminus
    · have hread : Numeral.read false ⟨ch :: text ++ more, line, column⟩ = .done (.unsigned n) c := hread
      rw [htext, List.append_assoc] at hread
      obtain ⟨-, rfl, hnatural⟩ := Numeral.isNatural_of_read hds hx hmore hread
      rwa [List.append_nil]
  | @negative ds x hds hx =>
    obtain ⟨rfl, rfl⟩ := List.cons.inj htext
    rcases read_of_scalar hread with ⟨-, line', column', hread⟩ | ⟨hdigit, -⟩
    · have hread : Numeral.read true ⟨(ds ++ x) ++ more, line', column'⟩ = .done (.unsigned n) c := hread
      rw [List.append_assoc] at hread
      cases (Numeral.isNatural_of_read hds hx hmore hread).1
    · cases hdigit

/-- A number is read where a whole number is asked for if it is one. -/
theorem decides_natural_of_number (h : IsNumber value) (hmore : Numeral.Ends more) :
    Decides natural (value ++ more) more fun n => IsNatural value n ∧ n < 2 ^ (64 : Nat) := by
  obtain ⟨ch, text, rfl, hch⟩ := h.exists_cons
  obtain ⟨hblank, -⟩ := Grammar.head_of_number hch
  refine ⟨fun {n} hn => Yields.peeked ?_ hblank, fun hnone => Yields.peeked ?_ hblank⟩
  · obtain ⟨hnatural, hlt⟩ := hn
    have hdigit : ch.isDigit = true := hnatural.1.1.2 ch List.mem_cons_self
    simp only [if_pos hch, scalar_digit hdigit]
    have hread := (Numeral.yields_read_of_isNatural hnatural hlt hmore).map (f := Value.number)
    exact Yields.settle (hread.bind (yields_pure n more))
  · simp only [if_pos hch]
    refine Yields.settle (.refused fun line column n c hread => ?_)
    obtain ⟨v, c', hscalar, hread⟩ := bind_eq_done hread
    split at hread
    · cases hread
      exact hnone n (isNatural_of_scalar h hmore hscalar)
    · cases hread
    · cases hread

/-- **Whole numbers.**  Of all values, the whole numbers of 64 bits without a sign are read. -/
theorem decides_natural (h : IsValue value) (hmore : Numeral.Ends more) (gap : Gap) :
    Decides natural (gap.chars ++ (value ++ more)) more
      fun n => IsNatural value n ∧ n < 2 ^ (64 : Nat) := by
  cases h with
  | null => exact decides_natural_of_cons rfl (by decide) gap more
  | bool b => cases b <;> exact decides_natural_of_cons rfl (by decide) gap more
  | string _ => exact decides_natural_of_cons rfl (by decide) gap more
  | array _ => exact decides_natural_of_cons rfl (by decide) gap more
  | object _ => exact decides_natural_of_cons rfl (by decide) gap more
  | number h => exact (decides_natural_of_number h hmore).lift fun _ ho => Yields.behind_gap ho gap

end Reader

end ExprForest.Json

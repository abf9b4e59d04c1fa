import ExprForest.Proofs.Lexical.Rules

namespace ExprForest

/-!
# The longest number

`Numeral.longest` against the rules: what it takes from the head of a text is a number, and no number
at the head of the text is longer.

* `Numeral.power_isPower`, `Numeral.length_le_power` — the same for the power of ten;
* `Numeral.mantissa_isMantissa`, `Numeral.length_le_mantissa` — the same for the digits and the point;
* `Numeral.longest_isNumeral`, `Numeral.length_le_longest` — put together: a power of ten can only stand
  behind the longest mantissa, since no mantissa holds an `e`.
-/

namespace Numeral

variable {cs m x ds : List Char}

/-! ### Runs of digits -/

/-- What `takeWhile` takes reaches as far as any run of such characters at the head. -/
theorem prefix_takeWhile {p : Char → Bool} (hrun : ∀ c ∈ ds, p c = true) (hpre : ds <+: cs) :
    ds <+: cs.takeWhile p := by
  obtain ⟨rest, rfl⟩ := hpre
  rw [List.takeWhile_append_of_pos hrun]
  exact List.prefix_append _ _

/-- What `takeWhile` takes, if that is not nothing, is a run of digits. -/
theorem isDigits_takeWhile (h : cs.takeWhile Char.isDigit ≠ []) :
    IsDigits (cs.takeWhile Char.isDigit) :=
  ⟨h, fun _ hc => List.mem_takeWhile_imp hc⟩

/-- Behind a run of digits at the head of a text, `takeWhile` does not take nothing. -/
theorem takeWhile_ne_nil (hds : IsDigits ds) (hpre : ds <+: cs) :
    cs.takeWhile Char.isDigit ≠ [] := by
  intro hnil
  have h := prefix_takeWhile hds.2 hpre
  rw [hnil, List.prefix_nil] at h
  exact hds.1 h

/-! ### Powers of ten -/

variable {e s : Char}

/-- A power of ten with a sign. -/
theorem power_signed (he : e = 'e' ∨ e = 'E') (hs : s = '+' ∨ s = '-') (cs : List Char) :
    power (e :: s :: cs) =
      if cs.takeWhile Char.isDigit = [] then [] else e :: s :: cs.takeWhile Char.isDigit := by
  rcases hs with rfl | rfl <;>
  · simp only [power, if_pos he]
    cases cs.takeWhile Char.isDigit <;> rfl

/-- A power of ten without a sign. -/
theorem power_plain (he : e = 'e' ∨ e = 'E') (hsign : ∀ s ds, cs = s :: ds → ¬(s = '+' ∨ s = '-')) :
    power (e :: cs) =
      if cs.takeWhile Char.isDigit = [] then [] else e :: cs.takeWhile Char.isDigit := by
  rw [power, if_pos he]
  · cases cs.takeWhile Char.isDigit <;> rfl
  · exact fun ds hcs => hsign _ ds hcs (.inl rfl)
  · exact fun ds hcs => hsign _ ds hcs (.inr rfl)

/-- A power of ten starts with an `e`. -/
theorem IsPower.head (hx : IsPower x) : ∃ e t, x = e :: t ∧ (e = 'e' ∨ e = 'E') := by
  cases hx with
  | plain he _ => exact ⟨_, _, rfl, he⟩
  | signed he _ _ => exact ⟨_, _, rfl, he⟩

/-- A power of ten holds digits, an `e` and a sign only. -/
theorem IsPower.mem_cases (hx : IsPower x) :
    ∀ c ∈ x, c.isDigit = true ∨ c = 'e' ∨ c = 'E' ∨ c = '+' ∨ c = '-' := by
  intro c hc
  cases hx with
  | plain he hds =>
    rcases List.mem_cons.mp hc with rfl | hc
    · rcases he with rfl | rfl <;> simp
    · exact .inl (hds.2 c hc)
  | signed he hs hds =>
    rcases List.mem_cons.mp hc with rfl | hc
    · rcases he with rfl | rfl <;> simp
    rcases List.mem_cons.mp hc with rfl | hc
    · rcases hs with rfl | rfl <;> simp
    · exact .inl (hds.2 c hc)

/-- Where `power` takes something, that is a power of ten at the head of the text. -/
theorem power_isPower (h : power cs ≠ []) : IsPower (power cs) ∧ power cs <+: cs := by
  cases cs with
  | nil => exact absurd rfl h
  | cons e cs =>
    by_cases he : e = 'e' ∨ e = 'E'
    case neg => exact absurd (by simp [power, he]) h
    -- a sign belongs to the power only if digits stand behind it
    by_cases hsign : ∃ s ds, cs = s :: ds ∧ (s = '+' ∨ s = '-')
    · obtain ⟨s, ds, rfl, hs⟩ := hsign
      rw [power_signed he hs] at h ⊢
      have hrun : ds.takeWhile Char.isDigit ≠ [] := fun hnil => h (if_pos hnil)
      rw [if_neg hrun]
      exact ⟨.signed he hs (isDigits_takeWhile hrun), by simp [List.takeWhile_prefix]⟩
    · rw [power_plain he fun s ds hcs hs => hsign ⟨s, ds, hcs, hs⟩] at h ⊢
      have hrun : cs.takeWhile Char.isDigit ≠ [] := fun hnil => h (if_pos hnil)
      rw [if_neg hrun]
      exact ⟨.plain he (isDigits_takeWhile hrun), by simp [List.takeWhile_prefix]⟩

/-- No power of ten at the head of a text is longer than what `power` takes. -/
theorem length_le_power (hx : IsPower x) (hpre : x <+: cs) : x.length ≤ (power cs).length := by
  cases hx with
  | @plain e ds he hds =>
    obtain ⟨rest, rfl⟩ := hpre
    have hrun : ds <+: ds ++ rest := List.prefix_append _ _
    -- the first digit is no sign, so `power` splits nothing off
    have hsign : ∀ s rest', ds ++ rest = s :: rest' → ¬(s = '+' ∨ s = '-') := by
      intro s rest' hcs
      obtain ⟨d, ds, rfl⟩ := List.exists_cons_of_ne_nil hds.1
      obtain rfl : d = s := (List.cons.inj hcs).1
      have hd : d.isDigit = true := hds.2 d List.mem_cons_self
      rintro (rfl | rfl) <;> exact absurd hd (by decide)
    rw [List.cons_append, power_plain he hsign, if_neg (takeWhile_ne_nil hds hrun)]
    simpa using (prefix_takeWhile hds.2 hrun).length_le
  | @signed e s ds he hs hds =>
    obtain ⟨rest, rfl⟩ := hpre
    have hrun : ds <+: ds ++ rest := List.prefix_append _ _
    rw [List.cons_append, List.cons_append, power_signed he hs,
      if_neg (takeWhile_ne_nil hds hrun)]
    simpa using (prefix_takeWhile hds.2 hrun).length_le

/-! ### Mantissas -/

/-- A mantissa holds digits and points only. -/
theorem isDigit_or_eq_point (hm : IsMantissa m) : ∀ c ∈ m, c.isDigit = true ∨ c = '.' := by
  intro c hc
  cases hm with
  | whole hds => exact .inl (hds.2 c hc)
  | pointed hds hfs =>
    rcases List.mem_append.mp hc with hc | hc
    · exact .inl (hds.2 c hc)
    · rcases List.mem_cons.mp hc with rfl | hc
      · exact .inr rfl
      · exact .inl (hfs c hc)
  | leading hfs =>
    rcases List.mem_cons.mp hc with rfl | hc
    · exact .inr rfl
    · exact .inl (hfs.2 c hc)

/-- A mantissa is not empty. -/
theorem IsMantissa.ne_nil (hm : IsMantissa m) : m ≠ [] := by
  cases hm with
  | whole hds => exact hds.1
  | pointed hds _ => simp
  | leading _ => simp

/-- Digits up to a point, and what `takeWhile` takes behind it. -/
theorem mantissa_pointed (hds : ∀ c ∈ ds, c.isDigit = true) (cs : List Char) :
    mantissa (ds ++ '.' :: cs) =
      if ds = [] ∧ cs.takeWhile Char.isDigit = [] then []
      else ds ++ '.' :: cs.takeWhile Char.isDigit := by
  have hwhole : (ds ++ '.' :: cs).takeWhile Char.isDigit = ds := by
    rw [List.takeWhile_append_of_pos hds, List.takeWhile_cons_of_neg (by decide), List.append_nil]
  rw [mantissa, hwhole, List.drop_left]
  simp [List.isEmpty_iff]

/-- Digits that no point follows. -/
theorem mantissa_whole
    (hpoint : ∀ ds behind, (∀ c ∈ ds, c.isDigit = true) → cs ≠ ds ++ '.' :: behind) :
    mantissa cs = cs.takeWhile Char.isDigit := by
  rw [mantissa]
  split
  · rename_i behind hdrop
    -- `takeWhile` has stopped at a point
    have hcs := List.prefix_iff_eq_append.mp (List.takeWhile_prefix (l := cs) Char.isDigit)
    rw [hdrop] at hcs
    exact absurd hcs.symm (hpoint _ _ fun _ hc => List.mem_takeWhile_imp hc)
  · rfl

/-- Where `mantissa` takes something, that is a mantissa at the head of the text. -/
theorem mantissa_isMantissa (h : mantissa cs ≠ []) : IsMantissa (mantissa cs) ∧ mantissa cs <+: cs := by
  by_cases hpoint : ∃ ds behind, (∀ c ∈ ds, c.isDigit = true) ∧ cs = ds ++ '.' :: behind
  · obtain ⟨ds, behind, hds, rfl⟩ := hpoint
    rw [mantissa_pointed hds] at h ⊢
    have hne : ¬(ds = [] ∧ behind.takeWhile Char.isDigit = []) := fun hnil => h (if_pos hnil)
    rw [if_neg hne]
    refine ⟨?_, by simp [List.takeWhile_prefix]⟩
    -- without a digit before the point there is one behind it
    by_cases hnil : ds = []
    · subst hnil
      exact .leading (isDigits_takeWhile fun hfs => hne ⟨rfl, hfs⟩)
    · exact .pointed ⟨hnil, hds⟩ fun _ hc => List.mem_takeWhile_imp hc
  · have hwhole : mantissa cs = cs.takeWhile Char.isDigit :=
      mantissa_whole fun ds behind hds hcs => hpoint ⟨ds, behind, hds, hcs⟩
    rw [hwhole] at h ⊢
    exact ⟨.whole (isDigits_takeWhile h), List.takeWhile_prefix _⟩

/-- No mantissa at the head of a text is longer than what `mantissa` takes. -/
theorem length_le_mantissa (hm : IsMantissa m) (hpre : m <+: cs) :
    m.length ≤ (mantissa cs).length := by
  cases hm with
  | whole hds =>
    by_cases hpoint : ∃ ds behind, (∀ c ∈ ds, c.isDigit = true) ∧ cs = ds ++ '.' :: behind
    · obtain ⟨ds, behind, hwhole, rfl⟩ := hpoint
      -- the digits may go on behind `m`, up to the point
      have hle : m <+: ds := by
        have h := prefix_takeWhile hds.2 hpre
        rwa [List.takeWhile_append_of_pos hwhole, List.takeWhile_cons_of_neg (by decide),
          List.append_nil] at h
      have hne : ds ≠ [] := fun hnil => hds.1 (List.prefix_nil.mp (hnil ▸ hle))
      rw [mantissa_pointed hwhole, if_neg fun h => hne h.1, List.length_append]
      exact Nat.le_add_right_of_le hle.length_le
    · rw [mantissa_whole fun ds behind hwhole hcs => hpoint ⟨ds, behind, hwhole, hcs⟩]
      exact (prefix_takeWhile hds.2 hpre).length_le
  | @pointed ds fs hds hfs =>
    obtain ⟨rest, rfl⟩ := hpre
    rw [List.append_assoc, List.cons_append, mantissa_pointed hds.2, if_neg fun h => hds.1 h.1]
    have := (prefix_takeWhile hfs (List.prefix_append fs rest)).length_le
    simpa using this
  | @leading fs hfs =>
    obtain ⟨rest, rfl⟩ := hpre
    have hrun : fs <+: fs ++ rest := List.prefix_append fs rest
    have heq := @mantissa_pointed [] (by simp) (fs ++ rest)
    rw [if_neg fun h => takeWhile_ne_nil hfs hrun h.2, List.nil_append, List.nil_append] at heq
    rw [List.cons_append, heq]
    simpa using (prefix_takeWhile hfs.2 hrun).length_le

/-- Where a mantissa stands, `mantissa` does not take nothing. -/
theorem mantissa_ne_nil (hm : IsMantissa m) (hpre : m <+: cs) : mantissa cs ≠ [] :=
  List.ne_nil_of_length_pos
    (Nat.lt_of_lt_of_le (List.length_pos_iff.mpr hm.ne_nil) (length_le_mantissa hm hpre))

/-! ### Numbers -/

/-- A number is a mantissa with a power of ten or none. -/
theorem exists_append_of_isNumeral {text : List Char} (h : IsNumeral text) :
    ∃ m x, IsMantissa m ∧ (x = [] ∨ IsPower x) ∧ text = m ++ x := by
  cases h with
  | mantissa hm => exact ⟨_, [], hm, .inl rfl, (List.append_nil _).symm⟩
  | scaled hm hx => exact ⟨_, _, hm, .inr hx, rfl⟩

/-- A number is the longest mantissa and the power of ten behind it. -/
theorem longest_eq (hne : mantissa cs ≠ []) :
    ∃ rest, mantissa cs ++ rest = cs ∧ longest cs = mantissa cs ++ power rest := by
  obtain ⟨-, rest, hcs⟩ := mantissa_isMantissa hne
  have hdrop := congrArg (List.drop (mantissa cs).length) hcs
  rw [List.drop_left] at hdrop
  refine ⟨rest, hcs, ?_⟩
  rw [longest]
  split
  · contradiction
  · rw [hdrop]

/-- What `longest` takes, if that is not nothing, is a number at the head of the text. -/
theorem longest_isNumeral (h : longest cs ≠ []) : IsNumeral (longest cs) ∧ longest cs <+: cs := by
  have hne : mantissa cs ≠ [] := fun hnil => h (by rw [longest, hnil])
  have hm := (mantissa_isMantissa hne).1
  obtain ⟨rest, hcs, hlongest⟩ := longest_eq hne
  by_cases hpower : power rest = []
  · rw [hlongest, hpower, List.append_nil]
    exact ⟨.mantissa hm, rest, hcs⟩
  · obtain ⟨hx, hpre⟩ := power_isPower hpower
    rw [hlongest]
    refine ⟨.scaled hm hx, ?_⟩
    have := (List.prefix_append_right_inj (mantissa cs)).mpr hpre
    rwa [hcs] at this

/-- A mantissa with a power of ten behind it is the longest one: an `e` cannot belong to it. -/
theorem mantissa_eq_of_isPower (hm : IsMantissa m) (hx : IsPower x) (hpre : m ++ x <+: cs) :
    mantissa cs = m := by
  have hpre' : m <+: cs := (List.prefix_append m x).trans hpre
  obtain ⟨hlong, behind, hbehind⟩ := mantissa_isMantissa (mantissa_ne_nil hm hpre')
  obtain ⟨more, hmore⟩ :=
    List.prefix_of_prefix_length_le hpre' ⟨behind, hbehind⟩ (length_le_mantissa hm hpre')
  cases more with
  | nil => rw [← hmore, List.append_nil]
  | cons c more =>
    -- the character behind `m` is the `e` of the power and a character of the longer mantissa
    obtain ⟨e, t, rfl, he⟩ := hx.head
    obtain ⟨rest, hrest⟩ := hpre
    rw [← hbehind, ← hmore] at hrest
    have hce : e = c := by simpa using congrArg (List.head? <| List.drop m.length ·) hrest
    have hc := isDigit_or_eq_point hlong c (by rw [← hmore]; simp)
    rcases he with rfl | rfl <;> subst hce <;> exact absurd hc (by decide)

/-- No number at the head of a text is longer than what `longest` takes. -/
theorem length_le_longest {text : List Char} (h : IsNumeral text) (hpre : text <+: cs) :
    text.length ≤ (longest cs).length := by
  cases h with
  | mantissa hm =>
    obtain ⟨rest, -, hlongest⟩ := longest_eq (mantissa_ne_nil hm hpre)
    rw [hlongest, List.length_append]
    exact Nat.le_add_right_of_le (length_le_mantissa hm hpre)
  | @scaled m x hm hx =>
    obtain ⟨rest, hcs, hlongest⟩ :=
      longest_eq (mantissa_ne_nil hm ((List.prefix_append m x).trans hpre))
    -- the power stands right behind the mantissa that `longest` takes
    have hlong := mantissa_eq_of_isPower hm hx hpre
    rw [← hcs, hlong, List.prefix_append_right_inj] at hpre
    rw [hlongest, hlong, List.length_append, List.length_append]
    exact Nat.add_le_add_left (length_le_power hx hpre) _

end Numeral

end ExprForest

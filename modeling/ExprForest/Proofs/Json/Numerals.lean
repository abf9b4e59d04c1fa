import ExprForest.Proofs.Json.Steps

namespace ExprForest.Json.Numeral

/-!
# Numbers are read from their own text

What is read of a number does not depend on what stands behind it, as long as that cannot go on with a
number.

* `Ends` — texts that cannot go on with a number;
* `Local` — what a reader gives for a text, it gives before all such texts;
* `local_power`, `local_decimals`, `local_read` — the readers of a number, from its end to its beginning.
-/

-- Powers are those of the core library, whatever else is imported.
attribute [local instance (high)] instPowNat

open Reader (Yields)

variable {r r' : Reader Number} {ds ds' more : List Char} {n : Number}

/-- A text that cannot go on with a number. -/
def Ends (more : List Char) : Prop :=
  ∀ ch cs, more = ch :: cs → ch.isDigit = false ∧ ch ≠ '.' ∧ ch ≠ 'e' ∧ ch ≠ 'E'

/-- Whether what a reader gives for a text is what it gives before anything that cannot go on with it. -/
def Local (r : Reader Number) (ds : List Char) : Prop :=
  ∀ line column n c, r ⟨ds, line, column⟩ = .done n c →
    c.rest <:+ ds ∧ ∀ more, Ends more → Yields r (ds ++ more) (some (n, c.rest ++ more))

theorem ends_nil : Ends [] :=
  nofun

namespace Local

theorem of_ne_done (h : ∀ line column n c, r ⟨ds, line, column⟩ ≠ .done n c) : Local r ds :=
  fun line column n c hdone => absurd hdone (h line column n c)

/-- A reader that refuses the text, whatever stands behind it. -/
theorem of_stop {e : Nat → Nat → List Char → Error} (h : ∀ more, Ends more → ∀ line column,
    r ⟨ds ++ more, line, column⟩ = .stop (e line column more)) : Local r ds := by
  refine of_ne_done fun line column n c hdone => ?_
  have hnil := h [] ends_nil line column
  rw [List.append_nil, hdone] at hnil
  cases hnil

/-- A reader that has its number. -/
theorem of_done (hsuffix : ds' <:+ ds)
    (h : ∀ more, Ends more → ∀ line column, ∃ line' column',
      r ⟨ds ++ more, line, column⟩ = .done n ⟨ds' ++ more, line', column'⟩) : Local r ds := by
  intro line column n' c hdone
  obtain ⟨line', column', hnil⟩ := h [] ends_nil line column
  rw [List.append_nil, List.append_nil, hdone] at hnil
  obtain ⟨rfl, rfl⟩ := Result.done.inj hnil
  exact ⟨hsuffix, fun more hmore => .done (h more hmore)⟩

/-- A reader that goes on as another one does further on. -/
theorem of_eq (h : Local r' ds') (hsuffix : ds' <:+ ds)
    (heq : ∀ more, Ends more → ∀ line column, ∃ line' column',
      r ⟨ds ++ more, line, column⟩ = r' ⟨ds' ++ more, line', column'⟩) : Local r ds := by
  intro line column n c hdone
  obtain ⟨line', column', hnil⟩ := heq [] ends_nil line column
  rw [List.append_nil, List.append_nil, hdone] at hnil
  obtain ⟨hrest, hyields⟩ := h line' column' n c hnil.symm
  exact ⟨hrest.trans hsuffix, fun more hmore => (hyields more hmore).of_eq (heq more hmore)⟩

end Local

/-! ### Digits -/

/-- A run of digits ends where the number ends. -/
theorem takeWhile_append (h : Ends more) :
    (ds ++ more).takeWhile Char.isDigit = ds.takeWhile Char.isDigit := by
  induction ds with
  | nil =>
    cases more with
    | nil => rfl
    | cons ch cs => exact List.takeWhile_cons_of_neg (by rw [(h ch cs rfl).1]; decide)
  | cons d ds ih => rw [List.cons_append, List.takeWhile_cons, List.takeWhile_cons, ih]

/-- The text behind the digits ahead. -/
def behindDigits (ds : List Char) : List Char :=
  ds.drop (ds.takeWhile Char.isDigit).length

theorem behindDigits_suffix (ds : List Char) : behindDigits ds <:+ ds :=
  List.drop_suffix _ _

theorem digits_eq (line column : Nat) :
    Cursor.digits ⟨ds, line, column⟩ = (ds.takeWhile Char.isDigit,
      ⟨behindDigits ds, line, column + (ds.takeWhile Char.isDigit).length⟩) :=
  rfl

theorem digits_append (h : Ends more) (line column : Nat) :
    Cursor.digits ⟨ds ++ more, line, column⟩ =
      (ds.takeWhile Char.isDigit, ⟨behindDigits ds ++ more, line,
        column + (ds.takeWhile Char.isDigit).length⟩) := by
  have hlength : (ds.takeWhile Char.isDigit).length ≤ ds.length :=
    (List.takeWhile_prefix _).length_le
  rw [Cursor.digits]
  simp only [takeWhile_append h, Cursor.skip, behindDigits, List.drop_append_of_le_length hlength]

/-! ### The end of a number -/

variable {negative down : Bool} {significand : Nat} {exponent : Int}

theorem local_finish : Local (finish negative significand exponent) ds := by
  unfold finish
  cases scale? significand exponent with
  | none => exact .of_ne_done fun line column n c h => by cases h
  | some x => exact .of_done List.suffix_rfl fun more _ line column => ⟨line, column, rfl⟩

/-- The digits of a power of ten, behind its sign. -/
def powerBehind (negative : Bool) (significand : Nat) (exponent : Int) (down : Bool) :
    Reader Number :=
  fun c =>
    match c.rest with
    | [] => Reader.unfinished .value c
    | d :: _ =>
      if !d.isDigit then Reader.fault .invalidNumber c
      else
        let (digits, behind) := c.digits
        let (n, left) := keep (2 ^ (31 : Nat)) 0 digits
        match left with
        | [] => finish negative significand (if down then exponent - n else exponent + n) behind
        | _ :: more =>
          if significand != 0 && !down then
            Reader.stopAt (.fault .numberOutOfRange) (c.skip (digits.length - more.length)).position
          else .done (signed negative 0) behind

theorem power_of_no_sign (c : Cursor) (hplus : ∀ ds, c.rest ≠ '+' :: ds)
    (hminus : ∀ ds, c.rest ≠ '-' :: ds) :
    power negative significand exponent c = powerBehind negative significand exponent false c := by
  unfold power
  split
  rename_i down c' hsign
  split at hsign
  · rename_i ds hds
    exact absurd hds (hplus ds)
  · rename_i ds hds
    exact absurd hds (hminus ds)
  · obtain ⟨rfl, rfl⟩ := Prod.mk.inj hsign
    rfl

theorem local_powerBehind : Local (powerBehind negative significand exponent down) ds := by
  cases ds with
  | nil => exact .of_ne_done fun line column n c h => by cases h
  | cons d ds =>
    by_cases hdigit : d.isDigit = true
    · generalize hrun : (d :: ds).takeWhile Char.isDigit = run
      have hread : ∀ more, Ends more → ∀ line column,
          powerBehind negative significand exponent down ⟨d :: ds ++ more, line, column⟩ =
            match keep (2 ^ (31 : Nat)) 0 run with
            | (n, []) =>
              finish negative significand (if down then exponent - n else exponent + n)
                ⟨behindDigits (d :: ds) ++ more, line, column + run.length⟩
            | (_, _ :: left) =>
              if significand != 0 && !down then
                Reader.stopAt (.fault .numberOutOfRange)
                  ⟨line, column + (run.length - left.length)⟩
              else .done (signed negative 0)
                ⟨behindDigits (d :: ds) ++ more, line, column + run.length⟩ := by
        intro more hmore line column
        unfold powerBehind
        rw [digits_append hmore, hrun]
        simp only [List.cons_append, hdigit]
        rcases keep (2 ^ (31 : Nat)) 0 run with ⟨n, _ | ⟨d, left⟩⟩ <;> rfl
      rcases hkeep : keep (2 ^ (31 : Nat)) 0 run with ⟨n, _ | ⟨d', left⟩⟩
      · simp only [hkeep] at hread
        exact local_finish.of_eq (behindDigits_suffix _) fun more hmore line column =>
          ⟨line, column + run.length, hread more hmore line column⟩
      · simp only [hkeep] at hread
        by_cases hrange : (significand != 0 && !down) = true
        · simp only [if_pos hrange] at hread
          exact .of_stop hread
        · simp only [if_neg hrange] at hread
          exact .of_done (behindDigits_suffix _) fun more hmore line column =>
            ⟨line, column + run.length, hread more hmore line column⟩
    · refine .of_ne_done fun line column n c h => ?_
      simp [powerBehind, hdigit, Reader.fault, Reader.stopAt] at h

theorem local_power : Local (power negative significand exponent) ds := by
  rcases ds with _ | ⟨ch, ds⟩
  · exact .of_ne_done fun line column n c h => by cases h
  by_cases hplus : ch = '+'
  · subst hplus
    exact local_powerBehind.of_eq (List.suffix_cons _ _) fun more _ line column =>
      ⟨line, column + 1, rfl⟩
  by_cases hminus : ch = '-'
  · subst hminus
    exact local_powerBehind.of_eq (List.suffix_cons _ _) fun more _ line column =>
      ⟨line, column + 1, rfl⟩
  refine local_powerBehind.of_eq List.suffix_rfl fun more _ line column =>
    ⟨line, column, power_of_no_sign _ ?_ ?_⟩
  · rintro _ ⟨⟩
    exact hplus rfl
  · rintro _ ⟨⟩
    exact hminus rfl

/-- Behind the digits of a number and its point, where no power of ten follows. -/
theorem powerOrEnd_of_end (c : Cursor) (h : ∀ ch ds, c.rest = ch :: ds → ch ≠ 'e' ∧ ch ≠ 'E') :
    powerOrEnd negative significand exponent c = finish negative significand exponent c := by
  unfold powerOrEnd
  split
  · rename_i ds hds
    exact absurd rfl (h _ ds hds).1
  · rename_i ds hds
    exact absurd rfl (h _ ds hds).2
  · rfl

theorem local_powerOrEnd : Local (powerOrEnd negative significand exponent) ds := by
  rcases ds with _ | ⟨ch, ds⟩
  · refine local_finish.of_eq List.suffix_rfl fun more hmore line column =>
      ⟨line, column, powerOrEnd_of_end _ fun ch cs hcs => ?_⟩
    obtain ⟨-, -, he, hE⟩ := hmore ch cs hcs
    exact ⟨he, hE⟩
  by_cases he : ch = 'e'
  · subst he
    exact local_power.of_eq (List.suffix_cons _ _) fun more _ line column =>
      ⟨line, column + 1, rfl⟩
  by_cases hE : ch = 'E'
  · subst hE
    exact local_power.of_eq (List.suffix_cons _ _) fun more _ line column =>
      ⟨line, column + 1, rfl⟩
  refine local_finish.of_eq List.suffix_rfl fun more _ line column =>
    ⟨line, column, powerOrEnd_of_end _ ?_⟩
  rintro _ _ ⟨⟩
  exact ⟨he, hE⟩

theorem local_decimals : Local (decimals negative significand exponent) ds := by
  generalize hrun : ds.takeWhile Char.isDigit = run
  cases run with
  | nil =>
    refine .of_ne_done fun line column n c h => ?_
    unfold decimals at h
    rw [digits_eq, hrun] at h
    dsimp only at h
    split at h
    · cases h
    · unfold Reader.fault Reader.stopAt at h
      cases h
    · rename_i hnot _
      exact hnot rfl
  | cons d run =>
    rcases hkeep : keep (2 ^ (64 : Nat)) significand (d :: run) with ⟨kept, left⟩
    have hrest := @local_powerOrEnd (behindDigits ds) negative kept
      (exponent - ((d :: run).length - left.length))
    refine hrest.of_eq (behindDigits_suffix _) fun more hmore line column =>
      ⟨line, column + (d :: run).length, ?_⟩
    unfold decimals
    rw [digits_append hmore, hrun]
    simp only [hkeep]

/-! ### The beginning of a number -/

/-- A number that ends behind its digits. -/
def endOfWhole (negative : Bool) (significand : Nat) : List Char → Reader Number
  | [] => fun c => .done (whole negative significand) c
  | d :: left => finish negative significand (d :: left).length

/-- What stands behind the digits of a number, for which the significand had no room for `left`. -/
def behindWhole (negative : Bool) (significand : Nat) (left : List Char) : Reader Number :=
  fun c =>
    match c.rest, left with
    | '.' :: _, _ => decimals negative significand left.length (c.skip 1)
    | 'e' :: _, _ | 'E' :: _, _ => power negative significand left.length (c.skip 1)
    | _, [] => .done (whole negative significand) c
    | _, _ => finish negative significand left.length c

theorem local_endOfWhole {left : List Char} : Local (endOfWhole negative significand left) ds := by
  cases left with
  | nil => exact .of_done List.suffix_rfl fun more _ line column => ⟨line, column, rfl⟩
  | cons d left => exact local_finish

theorem behindWhole_of_end {spare : List Char} (c : Cursor)
    (h : ∀ ch ds, c.rest = ch :: ds → ch ≠ '.' ∧ ch ≠ 'e' ∧ ch ≠ 'E') :
    behindWhole negative significand spare c = endOfWhole negative significand spare c := by
  unfold behindWhole
  split
  · exact absurd rfl (h _ _ ‹_›).1
  · exact absurd rfl (h _ _ ‹_›).2.1
  · exact absurd rfl (h _ _ ‹_›).2.2
  · rfl
  · rename_i spare _ _ hne _ _ _
    cases spare with
    | nil => contradiction
    | cons d spare => rfl

theorem local_behindWhole {left : List Char} : Local (behindWhole negative significand left) ds := by
  rcases ds with _ | ⟨ch, ds⟩
  · refine local_endOfWhole.of_eq List.suffix_rfl fun more hmore line column =>
      ⟨line, column, behindWhole_of_end _ fun ch cs hcs => ?_⟩
    exact (hmore ch cs hcs).2
  by_cases hpoint : ch = '.'
  · subst hpoint
    exact local_decimals.of_eq (List.suffix_cons _ _) fun more _ line column =>
      ⟨line, column + 1, rfl⟩
  by_cases he : ch = 'e'
  · subst he
    exact local_power.of_eq (List.suffix_cons _ _) fun more _ line column =>
      ⟨line, column + 1, rfl⟩
  by_cases hE : ch = 'E'
  · subst hE
    exact local_power.of_eq (List.suffix_cons _ _) fun more _ line column =>
      ⟨line, column + 1, rfl⟩
  refine local_endOfWhole.of_eq List.suffix_rfl fun more _ line column =>
    ⟨line, column, behindWhole_of_end _ ?_⟩
  rintro _ _ ⟨⟩
  exact ⟨hpoint, he, hE⟩

/-- **Numbers.**  A number is read from its own text. -/
theorem local_read : Local (read negative) ds := by
  rcases ds with _ | ⟨first, ds⟩
  · exact .of_ne_done fun line column n c h => by cases h
  have hread : ∀ more, Ends more → ∀ line column, read negative ⟨first :: ds ++ more, line, column⟩ =
      if ¬first.isDigit then Reader.fault .invalidNumber ⟨first :: ds ++ more, line, column⟩
      else if first = '0' ∧ ds.head?.any Char.isDigit then
        Reader.fault .invalidNumber (Cursor.skip 1 ⟨first :: ds ++ more, line, column⟩)
      else
        let run := (first :: ds).takeWhile Char.isDigit
        let kept := keep (2 ^ (64 : Nat)) 0 run
        behindWhole negative kept.1 kept.2
          ⟨behindDigits (first :: ds) ++ more, line, column + run.length⟩ := by
    intro more hmore line column
    have hhead : (ds ++ more).head?.any Char.isDigit = ds.head?.any Char.isDigit := by
      cases ds with
      | nil =>
        cases more with
        | nil => rfl
        | cons ch cs => exact (hmore ch cs rfl).1
      | cons d ds => rfl
    rw [← hhead]
    unfold read
    rw [@digits_append (first :: ds) more hmore line column]
    simp only [List.cons_append, Bool.not_eq_true', Bool.not_eq_true]
    rfl
  by_cases hdigit : first.isDigit = true
  · simp only [if_neg (not_not_intro hdigit)] at hread
    by_cases hzero : first = '0' ∧ ds.head?.any Char.isDigit
    · simp only [if_pos hzero] at hread
      exact .of_stop hread
    · simp only [if_neg hzero] at hread
      exact local_behindWhole.of_eq (behindDigits_suffix _) fun more hmore line column =>
        ⟨line, _, hread more hmore line column⟩
  · simp only [if_pos hdigit] at hread
    exact .of_stop hread

end ExprForest.Json.Numeral

import ExprForest.Json.Printer
import ExprForest.Proofs.Decimal.Texts
import ExprForest.Proofs.Json.Numerals

namespace ExprForest

/-!
# Numbers that are read back

Not every number is the one that is read from its own digits, since a long row of digits is rounded twice.
Those that are, are read so wherever they stand.

* `Decimal.Format.isBlank_of_mem_text` — no blank stands in the text of a number;
* `Json.Number.ReadsBack` — the number that is read from the text of a number is that number;
* `Json.Number.ReadsBack.exists_yields` — it is read so inside of a text too.
-/

/-! ### The text of a number -/

namespace Decimal.Format

variable {ch : Char}

theorem IsMark.isBlank (h : IsMark ch) : Json.Cursor.isBlank ch = false := by
  rcases h with hdigit | rfl | rfl | rfl | rfl
  · rw [Bool.eq_false_iff]
    intro hblank
    simp only [Json.Cursor.isBlank, Bool.or_eq_true, beq_iff_eq, or_assoc] at hblank
    rcases hblank with rfl | rfl | rfl | rfl <;> cases hdigit
  all_goals rfl

/-- No blank stands in the text of a number. -/
theorem isBlank_of_mem_text (x : Float) :
    ∀ ch ∈ (json.text x).toList, Json.Cursor.isBlank ch = false := by
  have hend : ∀ ch ∈ json.wholeEnd.toList, IsMark ch :=
    List.forall_mem_cons.mpr ⟨.inr (.inl rfl), List.forall_mem_singleton.mpr (.inl rfl)⟩
  cases hx : x.isFinite with
  | true => exact fun ch hch => (isMark_of_mem_text hend hx ch hch).isBlank
  | false =>
    have hwords : ∀ word ∈ ["NaN", "inf", "-inf"],
        word.toList.all (!Json.Cursor.isBlank ·) = true := by
      simp only [List.forall_mem_cons]
      exact ⟨rfl, rfl, rfl, nofun⟩
    intro ch hch
    simpa using List.all_eq_true.mp (hwords _ (text_mem_words json hx)) ch hch

end Decimal.Format

/-! ### Reading it -/

namespace Json

open Reader (Yields)

/-- Whether the number that is read from the text of a number is that number, bit for bit. -/
def Number.ReadsBack (x : Float) : Prop :=
  ∃ n, (Reader.value 0).readAll (Decimal.Format.json.text x) = .ok (.number n) ∧ n.toFloat = x

instance (x : Float) : Decidable (Number.ReadsBack x) :=
  match h : (Reader.value 0).readAll (Decimal.Format.json.text x) with
  | .ok (.number n) =>
    decidable_of_iff (n.toFloat = x)
      ⟨fun hn => ⟨n, h, hn⟩, fun ⟨m, hm, hx⟩ => by cases h.symm.trans hm; exact hx⟩
  | .ok .null | .ok (.bool _) | .ok (.string _) | .ok (.array _) | .ok (.object _) | .error _ =>
    .isFalse fun ⟨m, hm, _⟩ => by cases h.symm.trans hm

/-- Not every finite number is read back. -/
example : ¬ Number.ReadsBack 2.785714285714286e-19 := by decide +kernel

namespace Reader

variable {n : Number} {ch : Char} {ds more : List Char}

/-- A value that does not begin with a bracket. -/
theorem value_eq_scalar (depth : Nat) (hblank : Cursor.isBlank ch = false) (hsquare : ch ≠ '[')
    (hcurly : ch ≠ '\x7b') (line column : Nat) :
    value depth ⟨ch :: ds, line, column⟩ = scalar ch ⟨ch :: ds, line, column⟩ := by
  have hpeek : peek ⟨ch :: ds, line, column⟩ = .done (some ch) ⟨ch :: ds, line, column⟩ := by
    rw [peek, skipBlanks_cons hblank]
    rfl
  rw [value]
  show Reader.bind peek _ _ = _
  rw [Reader.bind, hpeek]
  cases depth with
  | zero => exact congrFun (if_neg (not_or.mpr ⟨hsquare, hcurly⟩)) _
  | succ depth =>
    show (if ch = '[' then _ else if ch = '\x7b' then _ else scalar ch : Reader Value) _ = _
    rw [if_neg hsquare, if_neg hcurly]

theorem Yields.of_scalar {o : Option (Value × List Char)} (h : Yields (scalar ch) (ch :: ds) o)
    (depth : Nat) (hblank : Cursor.isBlank ch = false) (hsquare : ch ≠ '[') (hcurly : ch ≠ '\x7b') :
    Yields (value depth) (ch :: ds) o :=
  h.of_eq fun line column => ⟨line, column, value_eq_scalar depth hblank hsquare hcurly line column⟩

/-- A number begins with a minus sign or a digit. -/
theorem read_of_scalar {line column : Nat} {c : Cursor}
    (h : scalar ch ⟨ch :: ds, line, column⟩ = .done (.number n) c) :
    (ch = '-' ∧ ∃ line column, Numeral.read true ⟨ds, line, column⟩ = .done n c) ∨
      ch.isDigit = true ∧ Numeral.read false ⟨ch :: ds, line, column⟩ = .done n c := by
  have hnumber : ∀ {r : Reader Number} {c₁}, (do return Value.number (← r) : Reader Value) c₁ =
      .done (.number n) c → r c₁ = .done n c := by
    intro r c₁ h
    obtain ⟨m, c₂, hr, hpure⟩ := bind_eq_done h
    cases hpure
    exact hr
  rw [scalar] at h
  split at h
  · obtain ⟨_, _, -, hpure⟩ := bind_eq_done h
    cases hpure
  split at h
  · obtain ⟨_, _, -, hpure⟩ := bind_eq_done h
    cases hpure
  split at h
  · obtain ⟨_, _, -, hpure⟩ := bind_eq_done h
    cases hpure
  split at h
  · rename_i hminus
    subst hminus
    exact .inl ⟨rfl, line, column + 1, hnumber h⟩
  split at h
  · rename_i hdigit
    exact .inr ⟨hdigit, hnumber h⟩
  split at h
  · obtain ⟨_, _, -, h⟩ := bind_eq_done h
    obtain ⟨_, _, -, hpure⟩ := bind_eq_done h
    cases hpure
  · cases h

theorem scalar_minus : scalar '-' = (do drop; return .number (← Numeral.read true)) :=
  rfl

theorem scalar_digit (h : ch.isDigit = true) :
    scalar ch = (do return .number (← Numeral.read false)) := by
  have hne : ∀ letter : Char, letter.isDigit = false → ch ≠ letter := by
    rintro letter hletter rfl
    rw [h] at hletter
    cases hletter
  rw [scalar, if_neg (hne 'n' rfl), if_neg (hne 't' rfl), if_neg (hne 'f' rfl), if_neg (hne '-' rfl),
    if_pos h]

/-- A number that is read as a whole text is read before anything that cannot go on with it. -/
theorem yields_number {text : String} (hblank : ∀ ch ∈ text.toList, Cursor.isBlank ch = false)
    (h : (value 0).readAll text = .ok (.number n)) (depth : Nat) (hmore : Numeral.Ends more) :
    Yields (value depth) (text.toList ++ more) (some (.number n, more)) := by
  -- what was read, and that nothing of the text is left
  obtain ⟨c, hdone, hend⟩ := exists_done_of_readAll h
  have hrest : ∀ {ds}, (∀ ch ∈ ds, Cursor.isBlank ch = false) → c.rest <:+ ds → c.rest = [] := by
    intro ds hds hsuffix
    obtain ⟨rest, line, column⟩ := c
    cases rest with
    | nil => rfl
    | cons ch rest =>
      rw [skipBlanks_cons (hds ch (hsuffix.subset List.mem_cons_self))] at hend
      cases hend
  rw [Cursor.start] at hdone
  cases htext : text.toList with
  | nil =>
    rw [htext, value] at hdone
    cases hdone
  | cons ch ds =>
    rw [htext] at hdone hblank
    obtain ⟨hch, hds⟩ := List.forall_mem_cons.mp hblank
    have hscalar : ch ≠ '[' ∧ ch ≠ '\x7b' := by
      constructor <;> rintro rfl <;> rw [value] at hdone <;> cases hdone
    rw [value_eq_scalar 0 hch hscalar.1 hscalar.2] at hdone
    refine Yields.of_scalar ?_ depth hch hscalar.1 hscalar.2
    rcases read_of_scalar hdone with ⟨rfl, line, column, hread⟩ | ⟨hdigit, hread⟩
    · obtain ⟨hsuffix, hyields⟩ := Numeral.local_read line column n c hread
      have hyields := hyields more hmore
      rw [hrest hds hsuffix] at hyields
      rw [scalar_minus]
      exact (hyields.map).dropped
    · obtain ⟨hsuffix, hyields⟩ := Numeral.local_read 1 0 n c hread
      have hyields := hyields more hmore
      rw [hrest hblank hsuffix] at hyields
      rw [scalar_digit hdigit]
      exact hyields.map

end Reader

/-- A number that is read back is read so inside of a text too. -/
theorem Number.ReadsBack.exists_yields {x : Float} (h : ReadsBack x) : ∃ n : Number, n.toFloat = x ∧
    ∀ depth more, Numeral.Ends more → Yields (Reader.value depth)
      ((Decimal.Format.json.text x).toList ++ more) (some (.number n, more)) := by
  obtain ⟨n, hread, hn⟩ := h
  exact ⟨n, hn, fun depth more hmore =>
    Reader.yields_number (Decimal.Format.isBlank_of_mem_text x) hread depth hmore⟩

end Json

end ExprForest

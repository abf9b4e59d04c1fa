import ExprForest.Statement.Search
import Mathlib

namespace ExprForest.Statement.Tries

/-!
# Taking down tries

* `place_note` — the place of some tries is the furthest byte at which a rule failed;
* `UpTo` — nothing is tried behind a byte, and at it just some rules;
* `UpTo.note_self`, `UpTo.note_single`, `UpTo.note` — a rule that fails at that byte: one without rules inside
  it, with a single one tried there, and with none or several;
* `note_of_lt` — a rule that fails before the furthest byte changes nothing.
-/

variable {tries before : Tries} {offset offset' : Nat} {rule : Rule} {rules : List Rule}

/-- **Furthest.**  Taking down a rule goes as far as the byte at which it failed, and never back. -/
theorem place_note : (tries.note before rule offset).place = max tries.place offset := by
  rw [note]
  by_cases hplace : tries.place = offset
  · -- what is tried at the furthest byte already stays there
    simp only [hplace, Nat.lt_irrefl, if_false, if_true, Nat.max_self]
    split <;> first | exact hplace | rfl
  · have hnone : tries.rulesAt offset = [] := if_neg hplace
    rw [hnone, List.length_nil, if_neg (Nat.succ_ne_zero _).symm, if_neg hplace]
    split
    · rw [Nat.max_eq_right (by omega)]
    · rw [Nat.max_eq_left (by omega)]

/-- Nothing is tried behind a byte, and at it just some rules. -/
structure UpTo (tries : Tries) (offset : Nat) (rules : List Rule) : Prop where
  place_le : tries.place ≤ offset
  rulesAt_eq : tries.rulesAt offset = rules

theorem rulesAt_of_lt (h : tries.place < offset) : tries.rulesAt offset = [] :=
  if_neg (Nat.ne_of_lt h)

theorem upTo_none : UpTo none offset [] := by
  refine ⟨Nat.zero_le offset, ?_⟩
  rw [rulesAt]
  split <;> rfl

theorem upTo_of_lt (h : tries.place < offset) : tries.UpTo offset [] :=
  ⟨Nat.le_of_lt h, rulesAt_of_lt h⟩

/-- Nothing is tried at any byte behind. -/
theorem UpTo.further (h : tries.UpTo offset rules) (hlt : offset < offset') :
    tries.UpTo offset' [] :=
  upTo_of_lt (Nat.lt_of_le_of_lt h.place_le hlt)

/-- If some rule was tried at the byte, then it is the furthest. -/
theorem UpTo.eq (h : tries.UpTo offset rules) (hne : rules ≠ []) : tries = ⟨offset, rules⟩ := by
  obtain ⟨place, tried⟩ := tries
  obtain ⟨-, hrules⟩ := h
  rw [rulesAt] at hrules
  split at hrules
  · rename_i hplace
    obtain rfl : place = offset := hplace
    obtain rfl : tried = rules := hrules
    rfl
  · exact absurd hrules.symm hne

theorem UpTo.note (hbefore : before.UpTo offset []) (h : tries.UpTo offset rules)
    (hne : rules.length ≠ 1) : (tries.note before rule offset).UpTo offset [rule] := by
  rw [Tries.note, hbefore.rulesAt_eq, h.rulesAt_eq, List.length_nil, Nat.zero_add, if_neg hne]
  by_cases hlt : tries.place < offset
  · rw [if_pos hlt]
    exact ⟨Nat.le_refl _, if_pos rfl⟩
  · have hplace : tries.place = offset := Nat.le_antisymm h.place_le (Nat.le_of_not_lt hlt)
    rw [if_neg hlt, if_pos hplace]
    exact ⟨Nat.le_refl _, if_pos rfl⟩

/-- A rule without rules inside it is taken down behind those tried before. -/
theorem UpTo.note_self (h : tries.UpTo offset rules) :
    (tries.note tries rule offset).UpTo offset (rules ++ [rule]) := by
  rw [Tries.note, if_neg (Nat.ne_of_lt (Nat.lt_succ_self _))]
  by_cases hlt : tries.place < offset
  · rw [if_pos hlt]
    obtain rfl : [] = rules := (rulesAt_of_lt hlt).symm.trans h.rulesAt_eq
    exact ⟨Nat.le_refl _, if_pos rfl⟩
  · have hplace : tries.place = offset := Nat.le_antisymm h.place_le (Nat.le_of_not_lt hlt)
    have hrules : tries.rules = rules := (if_pos hplace).symm.trans h.rulesAt_eq
    rw [if_neg hlt, if_pos hplace, h.rulesAt_eq, hrules, List.take_length]
    exact ⟨Nat.le_refl _, if_pos rfl⟩

/-- A rule with a single one inside it that was tried at the same byte is not taken down. -/
theorem UpTo.note_single {rule' : Rule} (hbefore : before.UpTo offset [])
    (h : tries.UpTo offset [rule']) : tries.note before rule offset = tries := by
  rw [Tries.note, hbefore.rulesAt_eq, h.rulesAt_eq]
  exact if_pos rfl

/-- A rule that fails before the furthest byte changes nothing. -/
theorem note_of_lt (h : offset < tries.place) : tries.note before rule offset = tries := by
  have hnone : tries.rulesAt offset = [] := if_neg (Nat.ne_of_gt h)
  rw [Tries.note, hnone, List.length_nil, if_neg (Nat.succ_ne_zero _).symm,
    if_neg (Nat.lt_asymm h), if_neg (Nat.ne_of_gt h)]

end ExprForest.Statement.Tries

import ExprForest.SymbolTable
import Mathlib

namespace ExprForest.SymbolTable

/-!
# Search trees

* `find?_insert`, `modify_eq` — what is found after a change, in any tree;
* `Ascending` — the names of a tree in its order ascend, and `Ascending.insert` — they still do with a new
  one;
* `Ascending.find?_eq_some_iff` — then just the listed bindings are found;
* `Iter` — the iterator over a tree, which keeps the entries on its way back on a stack, and
  `yields_iter` — it gives the bindings that are listed.
-/

variable {α : Type} {t left right : SymbolTable α} {k key : String} {v value : α}

/-! ### Listings -/

theorem toListOnto_eq (rest : List (String × α)) (t : SymbolTable α) :
    t.toListOnto rest = t.toList ++ rest := by
  induction t generalizing rest with
  | empty => rfl
  | entry left key value right ihl ihr =>
    have hright : right.toListOnto [] = right.toList := rfl
    rw [toList, toListOnto, toListOnto, ihl, ihr, ihl, hright, List.append_assoc, List.cons_append]

@[simp] theorem toList_empty : (empty : SymbolTable α).toList = [] := rfl

@[simp] theorem toList_entry :
    (entry left key value right).toList = left.toList ++ (key, value) :: right.toList := by
  rw [toList, toListOnto, toListOnto_eq]
  rfl

theorem size_eq_length (t : SymbolTable α) : t.size = t.toList.length := by
  induction t with
  | empty => rfl
  | entry left key value right ihl ihr =>
    rw [size, toList_entry, List.length_append, List.length_cons, ihl, ihr]
    omega

theorem isEmpty_iff : t.isEmpty = true ↔ t.toList = [] := by
  cases t with
  | empty => exact iff_of_true rfl rfl
  | entry left key value right => simp [isEmpty]

/-! ### Searching -/

section

variable (left right : SymbolTable α) (value : α)

theorem find?_left (h : k < key) : (entry left key value right).find? k = left.find? k := by
  rw [find?, if_pos h]

theorem find?_right (h : key < k) : (entry left key value right).find? k = right.find? k := by
  rw [find?, if_neg h.asymm, if_pos h]

theorem find?_root (key : String) : (entry left key value right).find? key = some value := by
  rw [find?, if_neg (lt_irrefl key), if_neg (lt_irrefl key)]

theorem insert_left (h : k < key) (v : α) : (entry left key value right).insert k v =
    ((left.insert k v).1, entry (left.insert k v).2 key value right) := by
  rw [insert, if_pos h]

theorem insert_right (h : key < k) (v : α) : (entry left key value right).insert k v =
    ((right.insert k v).1, entry left key value (right.insert k v).2) := by
  rw [insert, if_neg h.asymm, if_pos h]

theorem insert_root (key : String) (v : α) : (entry left key value right).insert key v =
    (some value, entry left key v right) := by
  rw [insert, if_neg (lt_irrefl key), if_neg (lt_irrefl key)]

end

/-- The value that a name had before is the one that is found. -/
theorem insert_fst (k : String) (v : α) (t : SymbolTable α) : (t.insert k v).1 = t.find? k := by
  induction t with
  | empty => rfl
  | entry left key value right ihl ihr =>
    rcases lt_trichotomy k key with hlt | rfl | hgt
    · rw [insert_left _ _ _ hlt, find?_left _ _ _ hlt, ihl]
    · rw [insert_root, find?_root]
    · rw [insert_right _ _ _ hgt, find?_right _ _ _ hgt, ihr]

/-- A new binding is found, and all the others are as before. -/
theorem find?_insert (j k : String) (v : α) (t : SymbolTable α) :
    (t.insert k v).2.find? j = if j = k then some v else t.find? j := by
  induction t with
  | empty =>
    show (entry empty k v empty).find? j = _
    rcases lt_trichotomy j k with hlt | rfl | hgt
    · rw [find?_left _ _ _ hlt, if_neg hlt.ne]
    · rw [find?_root, if_pos rfl]
    · rw [find?_right _ _ _ hgt, if_neg hgt.ne']
  | entry left key value right ihl ihr =>
    -- where `k` belongs tells the part that changes, where `j` belongs the part that is searched
    rcases lt_trichotomy k key with hk | rfl | hk
    · rw [insert_left _ _ _ hk]
      rcases lt_trichotomy j key with hj | rfl | hj
      · rw [find?_left _ _ _ hj, find?_left _ _ _ hj, ihl]
      · rw [find?_root, find?_root, if_neg hk.ne']
      · rw [find?_right _ _ _ hj, find?_right _ _ _ hj, if_neg (hk.trans hj).ne']
    · rw [insert_root]
      rcases lt_trichotomy j k with hj | rfl | hj
      · rw [find?_left _ _ _ hj, find?_left _ _ _ hj, if_neg hj.ne]
      · rw [find?_root, if_pos rfl]
      · rw [find?_right _ _ _ hj, find?_right _ _ _ hj, if_neg hj.ne']
    · rw [insert_right _ _ _ hk]
      rcases lt_trichotomy j key with hj | rfl | hj
      · rw [find?_left _ _ _ hj, find?_left _ _ _ hj, if_neg (hj.trans hk).ne]
      · rw [find?_root, find?_root, if_neg hk.ne]
      · rw [find?_right _ _ _ hj, find?_right _ _ _ hj, ihr]

/-- A change in place is a new binding of a name that is bound, and nothing otherwise. -/
theorem modify_eq (k : String) (f : α → α) (t : SymbolTable α) :
    t.modify k f =
      match t.find? k with
      | some v => (some (f v), (t.insert k (f v)).2)
      | none => (none, t) := by
  induction t with
  | empty => rfl
  | entry left key value right ihl ihr =>
    rcases lt_trichotomy k key with hlt | rfl | hgt
    · rw [find?_left _ _ _ hlt, modify, if_pos hlt, ihl]
      cases left.find? k with
      | none => rfl
      | some v => simp only [insert_left _ _ _ hlt]
    · rw [find?_root, modify, if_neg (lt_irrefl k), if_neg (lt_irrefl k)]
      simp only [insert_root]
    · rw [find?_right _ _ _ hgt, modify, if_neg hgt.asymm, if_pos hgt, ihr]
      cases right.find? k with
      | none => rfl
      | some v => simp only [insert_right _ _ _ hgt]

/-! ### Order -/

/-- Whether the names of a tree, read in its order, ascend. -/
def Ascending (t : SymbolTable α) : Prop :=
  t.toList.Pairwise fun a b => a.1 < b.1

theorem ascending_empty : (empty : SymbolTable α).Ascending := List.Pairwise.nil

/-- The names to the left of an entry are smaller, those to its right greater. -/
theorem ascending_entry_iff : (entry left key value right).Ascending ↔
    (left.Ascending ∧ ∀ b ∈ left.toList, b.1 < key) ∧
      (right.Ascending ∧ ∀ b ∈ right.toList, key < b.1) := by
  rw [Ascending, toList_entry, List.pairwise_append, List.pairwise_cons]
  constructor
  · rintro ⟨hleft, ⟨hroot, hright⟩, hcross⟩
    exact ⟨⟨hleft, fun b hb => hcross b hb _ List.mem_cons_self⟩, hright, hroot⟩
  · rintro ⟨⟨hleft, hsmaller⟩, hright, hgreater⟩
    refine ⟨hleft, ⟨hgreater, hright⟩, fun a ha b hb => ?_⟩
    rcases List.mem_cons.mp hb with rfl | hb
    · exact hsmaller a ha
    · exact (hsmaller a ha).trans (hgreater b hb)

/-- No other binding is listed than the new one and the old ones. -/
theorem mem_toList_insert {b : String × α} (h : b ∈ (t.insert k v).2.toList) :
    b.1 = k ∨ b ∈ t.toList := by
  induction t with
  | empty =>
    obtain rfl := List.mem_singleton.mp h
    exact .inl rfl
  | entry left key value right ihl ihr =>
    rw [toList_entry]
    rcases lt_trichotomy k key with hlt | rfl | hgt
    · rw [insert_left _ _ _ hlt, toList_entry] at h
      rcases List.mem_append.mp h with h | h
      · exact (ihl h).imp_right (List.mem_append_left _)
      · exact .inr (List.mem_append_right _ h)
    · rw [insert_root, toList_entry] at h
      rcases List.mem_append.mp h with h | h
      · exact .inr (List.mem_append_left _ h)
      rcases List.mem_cons.mp h with rfl | h
      · exact .inl rfl
      · exact .inr (List.mem_append_right _ (List.mem_cons_of_mem _ h))
    · rw [insert_right _ _ _ hgt, toList_entry] at h
      rcases List.mem_append.mp h with h | h
      · exact .inr (List.mem_append_left _ h)
      rcases List.mem_cons.mp h with rfl | h
      · exact .inr (List.mem_append_right _ List.mem_cons_self)
      · exact (ihr h).imp_right fun h => List.mem_append_right _ (List.mem_cons_of_mem _ h)

/-- The names still ascend with a new binding. -/
theorem Ascending.insert (h : t.Ascending) (k : String) (v : α) : (t.insert k v).2.Ascending := by
  induction t with
  | empty => exact List.pairwise_singleton _ _
  | entry left key value right ihl ihr =>
    obtain ⟨⟨hleft, hsmaller⟩, hright, hgreater⟩ := ascending_entry_iff.mp h
    rcases lt_trichotomy k key with hlt | rfl | hgt
    · rw [insert_left _ _ _ hlt]
      refine ascending_entry_iff.mpr ⟨⟨ihl hleft, fun b hb => ?_⟩, hright, hgreater⟩
      rcases mem_toList_insert hb with rfl | hb
      · exact hlt
      · exact hsmaller b hb
    · rw [insert_root]
      exact ascending_entry_iff.mpr ⟨⟨hleft, hsmaller⟩, hright, hgreater⟩
    · rw [insert_right _ _ _ hgt]
      refine ascending_entry_iff.mpr ⟨⟨hleft, hsmaller⟩, ihr hright, fun b hb => ?_⟩
      rcases mem_toList_insert hb with rfl | hb
      · exact hgt
      · exact hgreater b hb

/-- In a tree whose names ascend, just the listed bindings are found. -/
theorem Ascending.find?_eq_some_iff (h : t.Ascending) : t.find? k = some v ↔ (k, v) ∈ t.toList := by
  induction t with
  | empty => simp [find?]
  | entry left key value right ihl ihr =>
    obtain ⟨⟨hleft, hsmaller⟩, hright, hgreater⟩ := ascending_entry_iff.mp h
    rw [toList_entry, List.mem_append, List.mem_cons]
    -- a name on the wrong side, or at the root under another name, is not there
    rcases lt_trichotomy k key with hlt | rfl | hgt
    · rw [find?_left _ _ _ hlt, ihl hleft]
      have hroot : (k, v) ≠ (key, value) := fun heq => hlt.ne (congrArg Prod.fst heq)
      have hout : (k, v) ∉ right.toList := fun hmem => hlt.asymm (hgreater _ hmem)
      simp only [hroot, hout, or_false]
    · rw [find?_root]
      have houtl : (k, v) ∉ left.toList := fun hmem => lt_irrefl k (hsmaller _ hmem)
      have houtr : (k, v) ∉ right.toList := fun hmem => lt_irrefl k (hgreater _ hmem)
      simp only [houtl, houtr, false_or, or_false, Option.some.injEq, Prod.mk.injEq, true_and,
        eq_comm]
    · rw [find?_right _ _ _ hgt, ihr hright]
      have hroot : (k, v) ≠ (key, value) := fun heq => hgt.ne' (congrArg Prod.fst heq)
      have hout : (k, v) ∉ left.toList := fun hmem => hgt.asymm (hsmaller _ hmem)
      simp only [hroot, hout, false_or]

/-! ### Iterating -/

/-- An iterator: the entries on its stack, the next one first, each with what stands to its right. -/
abbrev Iter (α : Type) : Type :=
  List ((String × α) × SymbolTable α)

/-- Puts the entries on the way to the smallest name on the stack. -/
def Iter.descend (stack : Iter α) : SymbolTable α → Iter α
  | empty => stack
  | entry left key value right => Iter.descend (((key, value), right) :: stack) left

/-- The iterator at the start of a tree. -/
def iter (t : SymbolTable α) : Iter α :=
  Iter.descend [] t

/-- The next binding, and the iterator behind it. -/
def Iter.next? : Iter α → Option ((String × α) × Iter α)
  | [] => none
  | (binding, right) :: stack => some (binding, Iter.descend stack right)

/-- What an iterator gives until it ends. -/
inductive Iter.Yields {α : Type} : Iter α → List (String × α) → Prop
  | done {i : Iter α} : i.next? = none → Yields i []
  | next {i i' : Iter α} {b : String × α} {bs : List (String × α)} :
      i.next? = some (b, i') → Yields i' bs → Yields i (b :: bs)

/-- What an iterator has still to give. -/
def Iter.rest (i : Iter α) : List (String × α) :=
  i.flatMap fun (binding, right) => binding :: right.toList

theorem Iter.rest_descend (stack : Iter α) (t : SymbolTable α) :
    (descend stack t).rest = t.toList ++ stack.rest := by
  induction t generalizing stack with
  | empty => rfl
  | entry left key value right ihl _ =>
    rw [descend, ihl, toList_entry, List.append_assoc]
    rfl

/-- An iterator gives what its stack holds. -/
theorem Iter.yields_rest (i : Iter α) : i.Yields i.rest := by
  generalize hrest : i.rest = bs
  induction bs generalizing i with
  | nil =>
    cases i with
    | nil => exact .done rfl
    | cons top stack => cases hrest
  | cons b bs ih =>
    cases i with
    | nil => cases hrest
    | cons top stack =>
      obtain ⟨binding, right⟩ := top
      have hrest' : binding :: (right.toList ++ rest stack) = b :: bs := hrest
      obtain ⟨rfl, hbs⟩ := List.cons.inj hrest'
      exact .next rfl (ih _ (by rw [rest_descend, hbs]))

/-- The iterator over a tree gives the bindings that are listed. -/
theorem yields_iter (t : SymbolTable α) : t.iter.Yields t.toList := by
  have h := Iter.yields_rest t.iter
  rwa [iter, Iter.rest_descend, show Iter.rest ([] : Iter α) = [] from rfl, List.append_nil] at h

end ExprForest.SymbolTable

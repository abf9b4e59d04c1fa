import ExprForest.Proofs.SymbolTable.Ordering

namespace ExprForest.SymbolTable

/-!
# The shape of a table

Which entry stands where depends on the names alone, and of these on the order in which each is bound for the
first time.

* `ofBindings`, `ofNames` — the table that bindings or mere names make, one after another;
* `skeleton` — the names of a table in their places, and `skeleton_ofBindings` — it comes from the names;
* `ofNames_cons` — what is bound behind the first name goes to its left or to its right, in order;
* `ofNames_eraseDups` — a name that is bound again changes nothing;
* `height_le_size`, `size_lt_two_pow_height` — how deep a table of a given size is;
* `shape_of_first_insertions` — put together.
-/

variable {α : Type} {t left right : SymbolTable α} {k : String} {v : α}

/-! ### Tables and their names -/

/-- The table behind bindings that are made one after another. -/
def insertAll (t : SymbolTable α) (bs : List (String × α)) : SymbolTable α :=
  bs.foldl (fun t b => (t.insert b.1 b.2).2) t

/-- The table that starts empty and takes bindings one after another. -/
def ofBindings (bs : List (String × α)) : SymbolTable α :=
  empty.insertAll bs

/-- The table that starts empty and takes names one after another. -/
def ofNames (ks : List String) : SymbolTable Unit :=
  ofBindings (ks.map fun k => (k, ()))

/-- The names of a table in their places. -/
def skeleton : SymbolTable α → SymbolTable Unit
  | empty => empty
  | entry left key _ right => entry left.skeleton key () right.skeleton

theorem insertAll_cons (t : SymbolTable α) (b : String × α) (bs : List (String × α)) :
    t.insertAll (b :: bs) = (t.insert b.1 b.2).2.insertAll bs :=
  rfl

theorem skeleton_insert (k : String) (v : α) (t : SymbolTable α) :
    (t.insert k v).2.skeleton = (t.skeleton.insert k ()).2 := by
  induction t with
  | empty => rfl
  | entry left key value right ihl ihr =>
    rcases lt_trichotomy k key with hlt | rfl | hgt
    · rw [insert_left _ _ _ hlt, skeleton, skeleton, ihl, insert_left _ _ _ hlt]
    · rw [insert_root, skeleton, skeleton, insert_root]
    · rw [insert_right _ _ _ hgt, skeleton, skeleton, ihr, insert_right _ _ _ hgt]

theorem skeleton_insertAll (t : SymbolTable α) (bs : List (String × α)) :
    (t.insertAll bs).skeleton = t.skeleton.insertAll (bs.map fun b => (b.1, ())) := by
  induction bs generalizing t with
  | nil => rfl
  | cons b bs ih => rw [insertAll_cons, ih, skeleton_insert, List.map_cons, insertAll_cons]

/-- Values make no difference to where the names stand. -/
theorem skeleton_ofBindings (bs : List (String × α)) :
    (ofBindings bs).skeleton = ofNames (bs.map Prod.fst) := by
  rw [ofBindings, skeleton_insertAll, ofNames, List.map_map]
  rfl

@[simp] theorem height_skeleton (t : SymbolTable α) : t.skeleton.height = t.height := by
  induction t with
  | empty => rfl
  | entry left key value right ihl ihr => rw [skeleton, height, height, ihl, ihr]

@[simp] theorem size_skeleton (t : SymbolTable α) : t.skeleton.size = t.size := by
  induction t with
  | empty => rfl
  | entry left key value right ihl ihr => rw [skeleton, size, size, ihl, ihr]

/-- The root and the sides of a table with a given skeleton. -/
theorem exists_entry_of_skeleton {l r : SymbolTable Unit} (h : t.skeleton = entry l k () r) :
    ∃ left value right, t = entry left k value right ∧ left.skeleton = l ∧ right.skeleton = r := by
  cases t with
  | empty => cases h
  | entry left key value right =>
    obtain ⟨hl, rfl, -, hr⟩ := entry.inj h
    exact ⟨left, value, right, rfl, hl, hr⟩

/-! ### The two sides of the first name -/

/-- What is bound when an entry stands at the root goes to its left or to its right, in order. -/
theorem exists_insertAll_entry (left right : SymbolTable α) (k : String) (v : α)
    (bs : List (String × α)) : ∃ value, (entry left k v right).insertAll bs =
      entry (left.insertAll (bs.filter (·.1 < k))) k value
        (right.insertAll (bs.filter (k < ·.1))) := by
  induction bs generalizing left v right with
  | nil => exact ⟨v, rfl⟩
  | cons b bs ih =>
    rw [insertAll_cons]
    rcases lt_trichotomy b.1 k with hlt | heq | hgt
    · simp only [insert_left _ _ _ hlt, List.filter_cons, hlt, hlt.asymm, decide_true, decide_false]
      exact ih _ _ _
    · simp only [← heq, insert_root, List.filter_cons, lt_irrefl, decide_false] at ih ⊢
      exact ih _ _ _
    · simp only [insert_right _ _ _ hgt, List.filter_cons, hgt, hgt.asymm, decide_true, decide_false]
      exact ih _ _ _

/-- The first name stands at the root, and the others on the side where they belong. -/
theorem ofNames_cons (k : String) (ks : List String) :
    ofNames (k :: ks) = entry (ofNames (ks.filter (· < k))) k () (ofNames (ks.filter (k < ·))) := by
  have hinsert : ofNames (k :: ks) = (entry empty k () empty).insertAll (ks.map fun k => (k, ())) :=
    rfl
  obtain ⟨value, hsides⟩ := exists_insertAll_entry empty empty k () (ks.map fun k => (k, ()))
  rw [hinsert, hsides, List.filter_map, List.filter_map]
  rfl

/-! ### Names that are bound again -/

theorem insert_eq_self (h : t.find? k = some v) : (t.insert k v).2 = t := by
  induction t with
  | empty => cases h
  | entry left key value right ihl ihr =>
    rcases lt_trichotomy k key with hlt | rfl | hgt
    · rw [find?_left _ _ _ hlt] at h
      rw [insert_left _ _ _ hlt, ihl h]
    · rw [find?_root] at h
      obtain rfl := Option.some.inj h
      rw [insert_root]
    · rw [find?_right _ _ _ hgt] at h
      rw [insert_right _ _ _ hgt, ihr h]

theorem ofNames_concat (ks : List String) (k : String) :
    ofNames (ks ++ [k]) = ((ofNames ks).insert k ()).2 := by
  simp [ofNames, ofBindings, insertAll]

/-- The names that were bound are found. -/
theorem find?_ofNames {ks : List String} (h : k ∈ ks) : (ofNames ks).find? k = some () := by
  induction ks using List.reverseRecOn with
  | nil => cases h
  | append_singleton ks j ih =>
    rw [ofNames_concat, find?_insert]
    by_cases hj : k = j
    · rw [if_pos hj]
    · rw [if_neg hj]
      rcases List.mem_append.mp h with h | h
      · exact ih h
      · exact absurd (List.mem_singleton.mp h) hj

/-- A name that is bound again changes nothing. -/
theorem ofNames_eraseDups (ks : List String) : ofNames ks.eraseDups = ofNames ks := by
  induction ks using List.reverseRecOn with
  | nil => rfl
  | append_singleton ks k ih =>
    rw [List.eraseDups_append, ofNames_concat]
    by_cases h : k ∈ ks
    · have hnone : [k].removeAll ks = [] := by simp [List.removeAll, h]
      rw [hnone, List.eraseDups_nil, List.append_nil, ih, insert_eq_self (find?_ofNames h)]
    · have hone : [k].removeAll ks = [k] := by simp [List.removeAll, h]
      have hself : [k].eraseDups = [k] := by rw [List.eraseDups_cons]; rfl
      rw [hone, hself, ofNames_concat, ih]

/-! ### Sizes -/

theorem height_le_size (t : SymbolTable α) : t.height ≤ t.size := by
  induction t with
  | empty => exact Nat.le_refl 0
  | entry left key value right ihl ihr =>
    rw [height, size]
    omega

theorem size_lt_two_pow_height (t : SymbolTable α) : t.size < 2 ^ t.height := by
  induction t with
  | empty => exact Nat.one_pos
  | entry left key value right ihl ihr =>
    have hl : 2 ^ left.height ≤ 2 ^ max left.height right.height :=
      Nat.pow_le_pow_right (by decide) (Nat.le_max_left _ _)
    have hr : 2 ^ right.height ≤ 2 ^ max left.height right.height :=
      Nat.pow_le_pow_right (by decide) (Nat.le_max_right _ _)
    rw [height, size, Nat.pow_add]
    omega

/-- Names that ascend or descend make a tree with one branch. -/
theorem height_ofNames_of_monotone {ks : List String}
    (h : ks.Pairwise (· < ·) ∨ ks.Pairwise (· > ·)) :
    (ofNames ks).height = ks.length ∧ (ofNames ks).size = ks.length := by
  induction ks with
  | nil => exact ⟨rfl, rfl⟩
  | cons k ks ih =>
    rw [List.pairwise_cons, List.pairwise_cons] at h
    have hsides : (ks.filter (· < k) = [] ∧ ks.filter (k < ·) = ks) ∨
        ks.filter (· < k) = ks ∧ ks.filter (k < ·) = [] := by
      refine h.imp (fun h => ?_) fun h => ?_
      · refine ⟨List.filter_eq_nil_iff.mpr fun j hj => ?_, List.filter_eq_self.mpr fun j hj => ?_⟩
        · simpa only [decide_eq_true_eq] using (h.1 j hj).asymm
        · exact decide_eq_true (h.1 j hj)
      · refine ⟨List.filter_eq_self.mpr fun j hj => ?_, List.filter_eq_nil_iff.mpr fun j hj => ?_⟩
        · exact decide_eq_true (h.1 j hj)
        · simpa only [decide_eq_true_eq] using (h.1 j hj).asymm
    obtain ⟨hheight, hsize⟩ := ih (h.imp And.right And.right)
    have hempty : (ofNames []).height = 0 ∧ (ofNames []).size = 0 := ⟨rfl, rfl⟩
    rw [ofNames_cons, height, size, List.length_cons]
    rcases hsides with ⟨hl, hr⟩ | ⟨hl, hr⟩ <;> rw [hl, hr] <;> omega

/-- What an iterator gives is settled by its stack. -/
theorem Iter.Yields.unique {i : Iter α} {bs bs' : List (String × α)} (h : i.Yields bs)
    (h' : i.Yields bs') : bs = bs' := by
  induction h generalizing bs' with
  | done hend =>
    cases h' with
    | done _ => rfl
    | next hnext _ => cases hend.symm.trans hnext
  | next hnext _ ih =>
    cases h' with
    | done hend => cases hend.symm.trans hnext
    | next hnext' hrest =>
      obtain ⟨rfl, rfl⟩ := Prod.mk.inj (Option.some.inj (hnext.symm.trans hnext'))
      rw [ih hrest]

/-! ### Shapes -/

/-- **Shapes.**  With no name bound a table is empty.  Otherwise the name bound first is its root, and each
    side is shaped like the table of the names that belong there, taken in the order in which they were bound
    for the first time.  A table has as many entries as its iterator gives; these are no fewer than it is
    deep, and fewer than two to the power of its depth.  Bindings whose names ascend or descend make a table as
    deep as it has entries. -/
theorem shape_of_first_insertions :
    (∀ bs : List (String × α),
      ((bs.map Prod.fst).eraseDups = [] → ofBindings bs = empty) ∧
      ∀ k ks, (bs.map Prod.fst).eraseDups = k :: ks →
        ∃ left value right, ofBindings bs = entry left k value right ∧
          left.skeleton = ofNames ((k :: ks).filter (· < k)) ∧
          right.skeleton = ofNames ((k :: ks).filter (k < ·))) ∧
    (∀ t : SymbolTable α,
      (∀ bs, t.iter.Yields bs → bs.length = t.size) ∧ t.depth ≤ t.size ∧ t.size < 2 ^ t.depth) ∧
    ∀ bs : List (String × α),
      bs.Pairwise (fun a b => a.1 < b.1) ∨ bs.Pairwise (fun a b => a.1 > b.1) →
        (ofBindings bs).depth = (ofBindings bs).size := by
  simp only [depth_eq_height]
  refine ⟨fun bs => ⟨fun hnone => ?_, fun k ks hnames => ?_⟩, fun t => ⟨fun bs h => ?_, ?_, ?_⟩,
    fun bs h => ?_⟩
  · cases bs with
    | nil => rfl
    | cons b bs =>
      rw [List.map_cons, List.eraseDups_cons] at hnone
      cases hnone
  · have hskeleton : (ofBindings bs).skeleton = ofNames (k :: ks) := by
      rw [skeleton_ofBindings, ← ofNames_eraseDups, hnames]
    rw [ofNames_cons] at hskeleton
    simp only [List.filter_cons, lt_irrefl, decide_false, Bool.false_eq_true, if_false]
    exact exists_entry_of_skeleton hskeleton
  · rw [h.unique t.yields_iter, size_eq_length]
  · exact height_le_size t
  · exact size_lt_two_pow_height t
  · have hnames : (bs.map Prod.fst).Pairwise (· < ·) ∨ (bs.map Prod.fst).Pairwise (· > ·) :=
      h.imp List.pairwise_map.mpr List.pairwise_map.mpr
    obtain ⟨hheight, hsize⟩ := height_ofNames_of_monotone hnames
    rw [← height_skeleton, ← size_skeleton, skeleton_ofBindings, hheight, hsize]

/-- A name that is bound a second time, between others, and names that ascend. -/
theorem shape_of_first_insertions_repeated :
    (∃ left value right,
      ofBindings [("m", 1), ("f", 2), ("t", 3), ("m", 4), ("a", 5)] = entry left "m" value right ∧
        left.skeleton = ofNames ["f", "a"] ∧ right.skeleton = ofNames ["t"]) ∧
    (ofBindings [("m", 1), ("m", 4)]).toList.length = (ofBindings [("m", 1), ("m", 4)]).size ∧
    (ofBindings [("a", 1), ("b", 2), ("c", 3)]).depth = (ofBindings [("a", 1), ("b", 2), ("c", 3)]).size :=
  ⟨(shape_of_first_insertions.1 [("m", 1), ("f", 2), ("t", 3), ("m", 4), ("a", 5)]).2 "m"
      ["f", "t", "a"] (by decide +kernel),
    (shape_of_first_insertions.2.1 _).1 _ (yields_iter _),
    shape_of_first_insertions.2.2 [("a", 1), ("b", 2), ("c", 3)] (.inl (by decide +kernel))⟩

end ExprForest.SymbolTable

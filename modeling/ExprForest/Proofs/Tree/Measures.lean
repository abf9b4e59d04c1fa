import ExprForest.Proofs.Tree.Equality

namespace ExprForest.Tree

/-!
# Sizes and heights

What the walks over a tree count, and how the two counts bound each other.

* `isGreatest_height` — the height is the length of the longest path from the root to a leaf;
* `Spine` — trees in which every node has a leaf for a subtree;
* `two_mul_height_le`, `size_lt_two_pow_height` — the bounds;
* `two_mul_height_eq_iff` — the lower one is attained by the spines and no other trees;
* `counts_and_bounds` — put together for the walks.
-/

variable {t l r : Tree} {op : Operator}

/-! ### Paths -/

theorem height_of_isTerminal (h : t.isTerminal = true) : t.height = 1 := by
  cases t with
  | node op l r => cases h
  | _ => rfl

theorem size_eq_one_iff : t.size = 1 ↔ t.isTerminal = true := by
  cases t with
  | node op l r =>
    have hl := l.size_pos
    rw [size_node]
    exact iff_of_false (by omega) nofun
  | _ => exact iff_of_true rfl rfl

/-- No place is deeper than the height. -/
theorem length_lt_height {place : List Side} {u : Tree} (h : t.at? place = some u) :
    place.length < t.height := by
  induction t generalizing place with
  | node op l r ihl ihr =>
    rw [height_node]
    rcases place with _ | ⟨_ | _, place⟩
    · exact Nat.lt_add_right _ Nat.one_pos
    · have hleft := ihl h
      rw [List.length_cons]
      omega
    · have hright := ihr h
      rw [List.length_cons]
      omega
  | _ =>
    rcases place with _ | ⟨side, place⟩
    · exact Nat.one_pos
    · cases side <;> cases h

/-- A path to a leaf has as many nodes as the height tells. -/
theorem exists_length_add_one_eq_height (t : Tree) :
    ∃ place leaf, t.at? place = some leaf ∧ leaf.isTerminal = true ∧
      place.length + 1 = t.height := by
  induction t with
  | node op l r ihl ihr =>
    rw [height_node]
    rcases Nat.le_total r.height l.height with hle | hle
    · obtain ⟨place, leaf, hat, hleaf, hlength⟩ := ihl
      refine ⟨.left :: place, leaf, hat, hleaf, ?_⟩
      rw [List.length_cons, Nat.max_eq_left hle]
      omega
    · obtain ⟨place, leaf, hat, hleaf, hlength⟩ := ihr
      refine ⟨.right :: place, leaf, hat, hleaf, ?_⟩
      rw [List.length_cons, Nat.max_eq_right hle]
      omega
  | _ => exact ⟨[], _, rfl, rfl, rfl⟩

/-- The numbers of nodes on the paths from the root to a leaf. -/
def pathLengths (t : Tree) : Set Nat :=
  {n | ∃ place leaf, t.at? place = some leaf ∧ leaf.isTerminal = true ∧ n = place.length + 1}

theorem isGreatest_height (t : Tree) : IsGreatest t.pathLengths t.height := by
  constructor
  · obtain ⟨place, leaf, hat, hleaf, hlength⟩ := t.exists_length_add_one_eq_height
    exact ⟨place, leaf, hat, hleaf, hlength.symm⟩
  · rintro n ⟨place, leaf, hat, -, rfl⟩
    exact length_lt_height hat

/-! ### Spines -/

/-- Whether every node of a tree has a leaf for a subtree. -/
def Spine (t : Tree) : Prop :=
  ∀ place op l r, t.at? place = some (node op l r) → l.isTerminal = true ∨ r.isTerminal = true

theorem spine_of_isTerminal (h : t.isTerminal = true) : t.Spine := by
  intro place op l r hat
  cases t with
  | node op l r => cases h
  | _ => rcases place with _ | ⟨_ | _, place⟩ <;> cases hat

theorem spine_node_iff : (node op l r).Spine ↔
    (l.isTerminal = true ∨ r.isTerminal = true) ∧ l.Spine ∧ r.Spine := by
  constructor
  · intro h
    exact ⟨h [] op l r rfl, fun place => h (.left :: place), fun place => h (.right :: place)⟩
  · rintro ⟨hroot, hl, hr⟩ (_ | ⟨_ | _, place⟩) op' l' r' hat
    · cases hat
      exact hroot
    · exact hl place op' l' r' hat
    · exact hr place op' l' r' hat

/-! ### Bounds -/

theorem two_mul_height_le (t : Tree) : 2 * t.height ≤ t.size + 1 := by
  induction t with
  | node op l r ihl ihr =>
    have hl := l.size_pos
    have hr := r.size_pos
    rw [height_node, size_node]
    omega
  | _ => exact Nat.le_refl 2

theorem size_lt_two_pow_height (t : Tree) : t.size < 2 ^ t.height := by
  induction t with
  | node op l r ihl ihr =>
    have hl : 2 ^ l.height ≤ 2 ^ max l.height r.height :=
      Nat.pow_le_pow_right (by decide) (Nat.le_max_left _ _)
    have hr : 2 ^ r.height ≤ 2 ^ max l.height r.height :=
      Nat.pow_le_pow_right (by decide) (Nat.le_max_right _ _)
    rw [height_node, size_node, Nat.pow_add]
    omega
  | _ => exact Nat.one_lt_two

/-- The bound is attained by the spines and no other trees. -/
theorem two_mul_height_eq_iff (t : Tree) : 2 * t.height = t.size + 1 ↔ t.Spine := by
  induction t with
  | node op l r ihl ihr =>
    have hl := l.two_mul_height_le
    have hr := r.two_mul_height_le
    have hlpos := l.size_pos
    have hrpos := r.size_pos
    have hlone := @height_of_isTerminal l
    have hrone := @height_of_isTerminal r
    rw [spine_node_iff, ← ihl, ← ihr, height_node, size_node]
    rw [← size_eq_one_iff] at hlone hrone ⊢
    rw [← size_eq_one_iff]
    -- the higher side has to attain the bound, and the other one has to be a leaf
    constructor
    · intro heq
      rcases Nat.le_total r.height l.height with hle | hle
      · rw [Nat.max_eq_left hle] at heq
        have hleaf : r.size = 1 := by omega
        exact ⟨.inr hleaf, by omega, by rw [hrone hleaf, hleaf]⟩
      · rw [Nat.max_eq_right hle] at heq
        have hleaf : l.size = 1 := by omega
        exact ⟨.inl hleaf, by rw [hlone hleaf, hleaf], by omega⟩
    · rintro ⟨hleaf | hleaf, hleft, hright⟩
      · have hheight := hlone hleaf
        have hrheight := r.height_pos
        omega
      · have hheight := hrone hleaf
        have hlheight := l.height_pos
        omega
  | _ => exact iff_of_true rfl (spine_of_isTerminal rfl)

/-! ### What is counted -/

/-- **Counts.**  The walks give the size and the height, which is the length of the longest path from the root
    to a leaf.  There are twice as many nodes as leaves but for one, an odd number; it lies between twice the
    number of levels less one, which only spines attain, and two to the power of the number of levels. -/
theorem counts_and_bounds (t : Tree) :
    t.countNodes = t.size ∧ t.countLevels = t.height ∧ IsGreatest t.pathLengths t.countLevels ∧
      Odd t.countNodes ∧ t.countNodes = 2 * t.leaves - 1 ∧
      2 * t.countLevels - 1 ≤ t.countNodes ∧ t.countNodes < 2 ^ t.countLevels ∧
      (2 * t.countLevels - 1 = t.countNodes ↔ t.Spine) := by
  rw [countNodes_eq_size, countLevels_eq_height]
  have hleaves := t.size_add_one
  have hlower := t.two_mul_height_le
  have hpos := t.size_pos
  refine ⟨rfl, rfl, t.isGreatest_height, ?_, by omega, by omega, t.size_lt_two_pow_height, ?_⟩
  · exact ⟨t.leaves - 1, by omega⟩
  · rw [← two_mul_height_eq_iff]
    omega

end ExprForest.Tree

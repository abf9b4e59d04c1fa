import ExprForest.Tree.Basic

namespace ExprForest.Tree

/-!
# Walks over trees of any depth

A long chain such as `1 + 1 + ⋯` makes a tree as deep as its line is long, so the walks here keep
their own list of pending subtrees and need no more stack on a deep tree than on a flat one.

* `countNodes` — counts the nodes;
* `countLevels` — the number of nodes on the longest path from the root to a leaf;
* `beq` — compares two trees pairwise.
-/

/-- The number of nodes in a list of trees. -/
def totalSize : List Tree → Nat
  | [] => 0
  | t :: ts => t.size + totalSize ts

/-- Counts the nodes of the pending trees on top of `count`. -/
def countNodesFrom (count : Nat) : List Tree → Nat
  | [] => count
  | node _ left right :: pending => countNodesFrom (count + 1) (right :: left :: pending)
  | number _ :: pending => countNodesFrom (count + 1) pending
  | identifier _ :: pending => countNodesFrom (count + 1) pending
termination_by pending => totalSize pending
decreasing_by
  all_goals simp only [totalSize, size_node, size_number, size_identifier]; omega

/-- The number of nodes of a tree. -/
def countNodes (t : Tree) : Nat :=
  countNodesFrom 0 [t]

/-- The walk adds what is pending to its count. -/
theorem countNodesFrom_eq (count : Nat) (pending : List Tree) :
    countNodesFrom count pending = count + totalSize pending := by
  fun_induction countNodesFrom count pending with
  | case1 => rfl
  | case2 _ _ _ _ _ ih => rw [ih]; simp only [totalSize, size_node]; omega
  | case3 _ _ _ ih => rw [ih]; simp only [totalSize, size_number]; omega
  | case4 _ _ _ ih => rw [ih]; simp only [totalSize, size_identifier]; omega

/-- Counting the nodes gives the size. -/
@[simp] theorem countNodes_eq_size (t : Tree) : t.countNodes = t.size := by
  rw [countNodes, countNodesFrom_eq]; simp [totalSize]

/-- The deepest level met in the pending trees, each of which stands on a given level. -/
def countLevelsFrom (deepest : Nat) : List (Tree × Nat) → Nat
  | [] => deepest
  | (node _ left right, level) :: pending =>
    countLevelsFrom (max deepest level) ((right, level + 1) :: (left, level + 1) :: pending)
  | (number _, level) :: pending => countLevelsFrom (max deepest level) pending
  | (identifier _, level) :: pending => countLevelsFrom (max deepest level) pending
termination_by pending => totalSize (pending.map Prod.fst)
decreasing_by
  all_goals simp only [List.map_cons, totalSize, size_node, size_number, size_identifier]; omega

/-- The number of nodes on the longest path from the root to a leaf. -/
def countLevels (t : Tree) : Nat :=
  countLevelsFrom 0 [(t, 1)]

/-- The deepest level of trees whose roots stand on given levels, at least `deepest`. -/
def deepestLevel (deepest : Nat) : List (Tree × Nat) → Nat
  | [] => deepest
  | (t, level) :: rest => deepestLevel (max deepest (level + t.height - 1)) rest

/-- The walk finds the deepest level of what is pending. -/
theorem countLevelsFrom_eq (deepest : Nat) (pending : List (Tree × Nat)) :
    countLevelsFrom deepest pending = deepestLevel deepest pending := by
  fun_induction countLevelsFrom deepest pending with
  | case1 => rfl
  | case2 deepest op left right level pending ih =>
    have hl := left.height_pos
    have hr := right.height_pos
    rw [ih]; simp only [deepestLevel, height_node]
    congr 1; omega
  | case3 _ _ _ _ ih => rw [ih]; simp [deepestLevel]
  | case4 _ _ _ _ ih => rw [ih]; simp [deepestLevel]

/-- Counting the levels gives the height. -/
@[simp] theorem countLevels_eq_height (t : Tree) : t.countLevels = t.height := by
  have := t.height_pos
  rw [countLevels, countLevelsFrom_eq]; simp only [deepestLevel]; omega

/-- Whether all pending pairs of trees are equal. -/
def allEqual : List (Tree × Tree) → Bool
  | [] => true
  | (node o l r, node o' l' r') :: pending =>
    o == o' && allEqual ((r, r') :: (l, l') :: pending)
  | (number a, number b) :: pending => a == b && allEqual pending
  | (identifier a, identifier b) :: pending => a == b && allEqual pending
  | _ => false
termination_by pending => totalSize (pending.map Prod.fst)
decreasing_by
  all_goals simp only [List.map_cons, totalSize, size_node, size_number, size_identifier]; omega

/-- Whether two trees have the same shape, operators and names, and numbers that compare equal. -/
def beq (a b : Tree) : Bool :=
  allEqual [(a, b)]

instance : BEq Tree := ⟨beq⟩

/-- The walk succeeds exactly if all pending pairs are equal. -/
theorem allEqual_iff (pending : List (Tree × Tree)) :
    allEqual pending = true ↔ ∀ p ∈ pending, Same p.1 p.2 := by
  fun_induction allEqual pending with
  | case1 => simp
  | case2 o l r o' l' r' pending ih =>
    rw [Bool.and_eq_true, ih]
    simp only [List.forall_mem_cons, Same, beq_iff_eq]
    constructor
    · intro ⟨ho, hr, hl, h⟩
      exact ⟨⟨ho, hl, hr⟩, h⟩
    · intro ⟨⟨ho, hl, hr⟩, h⟩
      exact ⟨ho, hr, hl, h⟩
  | case3 a b pending ih => rw [Bool.and_eq_true, ih, List.forall_mem_cons]; rfl
  | case4 a b pending ih =>
    rw [Bool.and_eq_true, ih, List.forall_mem_cons, beq_iff_eq]; rfl
  | case5 pending hnil hnode hnumber hname =>
    obtain _ | ⟨⟨a, b⟩, rest⟩ := pending
    · exact absurd rfl hnil
    · -- Two trees of one kind fall under the cases above.
      have hdiffer : ¬ Same a b := by
        intro h
        cases a <;> cases b <;> simp only [Same] at h
        · exact hnumber _ _ _ rfl
        · exact hname _ _ _ rfl
        · exact hnode _ _ _ _ _ _ _ rfl
      simp [hdiffer]

/-- Comparing trees decides whether they are the same. -/
theorem beq_iff_same (a b : Tree) : beq a b = true ↔ Same a b := by
  rw [beq, allEqual_iff]; simp

end ExprForest.Tree

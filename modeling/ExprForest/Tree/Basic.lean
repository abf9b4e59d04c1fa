import ExprForest.Operator.Basic

namespace ExprForest

/-!
# Statement trees

The operator tree of one statement: a node carries an operator and has exactly two subtrees, a leaf
is a number or a name.  The functions of this module recur on the tree; they are the measure against
which the walks of `ExprForest.Tree.Walk` are judged.

* `Tree.size` — the number of nodes, leaves included;
* `Tree.height` — the number of nodes on the longest path from the root to a leaf;
* `Tree.leaves` — the number of leaves;
* `Tree.Same` — equal shape, operators and names, with numbers that compare equal.

A name is always stored: that its copy may fail for want of memory is left out.
-/

/-- The tree of one statement. -/
inductive Tree where
  | number (value : Float)
  | identifier (name : String)
  | node (op : Operator) (left right : Tree)

instance : Inhabited Tree := ⟨.number 0⟩

namespace Tree

/-! ### Parts of the root -/

/-- A leaf: a number or a name. -/
def isTerminal : Tree → Bool
  | node .. => false
  | _ => true

/-- The operator of the root, if it is a node. -/
def operator? : Tree → Option Operator
  | node op .. => some op
  | _ => none

/-- The two subtrees of the root, if it is a node. -/
def children? : Tree → Option (Tree × Tree)
  | node _ left right => some (left, right)
  | _ => none

/-- The value of a number leaf. -/
def number? : Tree → Option Float
  | number value => some value
  | _ => none

/-- The name of an identifier leaf. -/
def identifier? : Tree → Option String
  | identifier name => some name
  | _ => none

/-! ### Measures -/

/-- The number of nodes, leaves included. -/
def size : Tree → Nat
  | node _ left right => 1 + left.size + right.size
  | _ => 1

/-- The number of nodes on the longest path from the root to a leaf. -/
def height : Tree → Nat
  | node _ left right => 1 + max left.height right.height
  | _ => 1

/-- The number of leaves. -/
def leaves : Tree → Nat
  | node _ left right => left.leaves + right.leaves
  | _ => 1

@[simp] theorem size_number (v : Float) : (number v).size = 1 := rfl

@[simp] theorem size_identifier (s : String) : (identifier s).size = 1 := rfl

@[simp] theorem size_node (op : Operator) (l r : Tree) :
    (node op l r).size = 1 + l.size + r.size := rfl

@[simp] theorem height_number (v : Float) : (number v).height = 1 := rfl

@[simp] theorem height_identifier (s : String) : (identifier s).height = 1 := rfl

@[simp] theorem height_node (op : Operator) (l r : Tree) :
    (node op l r).height = 1 + max l.height r.height := rfl

/-- A path has at least the root. -/
theorem height_pos (t : Tree) : 0 < t.height := by
  cases t with
  | node op l r => rw [height_node]; omega
  | _ => exact Nat.one_pos

/-- A tree has at least its root. -/
theorem size_pos (t : Tree) : 0 < t.size := by
  cases t with
  | node op l r => rw [size_node]; omega
  | _ => exact Nat.one_pos

/-- The nodes that are no leaves are one fewer than the leaves. -/
theorem size_add_one (t : Tree) : t.size + 1 = 2 * t.leaves := by
  induction t with
  | node op l r ihl ihr => simp only [size_node, leaves]; omega
  | _ => rfl

/-! ### Comparison -/

/-- Equal trees: the same shape, operators and names, and numbers that compare equal (a not-a-number
    differs from itself, the two zeros are equal). -/
def Same : Tree → Tree → Prop
  | number a, number b => (a == b) = true
  | identifier a, identifier b => a = b
  | node o l r, node o' l' r' => o = o' ∧ Same l l' ∧ Same r r'
  | _, _ => False

end Tree

end ExprForest

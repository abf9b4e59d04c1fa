namespace ExprForest

/-!
# Symbol tables

Bindings of names to values in a search tree that is not balanced: smaller names stand to the left of
an entry and greater ones to its right, in the order of their UTF-8 bytes, which is the order of their
code points.  A new name becomes a leaf; a known one keeps its place.

* `SymbolTable.insert` — binds a name, and gives the value it had before;
* `SymbolTable.find?`, `SymbolTable.modify` — the value of a name, and a change of it in place;
* `SymbolTable.toList` — the bindings in the order of their names;
* `SymbolTable.size`, `SymbolTable.height` — the number of entries, in all and on the longest path;
* `SymbolTable.depth` — the latter by a walk that needs no stack for a degenerate tree;
* `SymbolTable.shape` — the tree as text.

A name is always stored: that its copy may fail for want of memory, which would leave the table unchanged, is
left out, and so are the notes that are traced.
-/

/-- Bindings of names to values. -/
inductive SymbolTable (α : Type) where
  | empty
  | entry (left : SymbolTable α) (key : String) (value : α) (right : SymbolTable α)

namespace SymbolTable

variable {α : Type}

instance : Inhabited (SymbolTable α) := ⟨empty⟩

/-- Whether nothing is bound. -/
def isEmpty : SymbolTable α → Bool
  | empty => true
  | entry .. => false

/-- The name at the root. -/
def rootKey? : SymbolTable α → Option String
  | empty => none
  | entry _ key _ _ => some key

/-- The value bound to a name. -/
def find? (k : String) : SymbolTable α → Option α
  | empty => none
  | entry left key value right =>
    if k < key then left.find? k
    else if key < k then right.find? k
    else some value

/-- Binds a name.  Gives the value it was bound to before, and the table with the new binding. -/
def insert (k : String) (v : α) : SymbolTable α → Option α × SymbolTable α
  | empty => (none, entry empty k v empty)
  | entry left key value right =>
    if k < key then
      let (previous, left) := left.insert k v
      (previous, entry left key value right)
    else if key < k then
      let (previous, right) := right.insert k v
      (previous, entry left key value right)
    else (some value, entry left key v right)

/-- Changes the value of a name in place.  Gives the new value, if the name is bound. -/
def modify (k : String) (f : α → α) : SymbolTable α → Option α × SymbolTable α
  | empty => (none, empty)
  | entry left key value right =>
    if k < key then
      let (found, left) := left.modify k f
      (found, entry left key value right)
    else if key < k then
      let (found, right) := right.modify k f
      (found, entry left key value right)
    else (some (f value), entry left key (f value) right)

/-- The bindings in the order of their names, before those of `rest`. -/
def toListOnto (rest : List (String × α)) : SymbolTable α → List (String × α)
  | empty => rest
  | entry left key value right => left.toListOnto ((key, value) :: right.toListOnto rest)

/-- The bindings in the order of their names. -/
def toList (t : SymbolTable α) : List (String × α) :=
  t.toListOnto []

/-- The number of entries. -/
def size : SymbolTable α → Nat
  | empty => 0
  | entry left _ _ right => 1 + left.size + right.size

/-- The number of entries on the longest path from the root. -/
def height : SymbolTable α → Nat
  | empty => 0
  | entry left _ _ right => 1 + max left.height right.height

/-- The steps that a walk over the pending parts takes: one for each entry, and one for each end of a path. -/
def steps : List (SymbolTable α × Nat) → Nat
  | [] => 0
  | (t, _) :: pending => 2 * t.size + 1 + steps pending

/-- The deepest level of the entries in the pending parts, each of which stands on a given level, or
    `deepest` if that is deeper. -/
def deepestFrom (deepest : Nat) : List (SymbolTable α × Nat) → Nat
  | [] => deepest
  | (empty, _) :: pending => deepestFrom deepest pending
  | (entry left _ _ right, level) :: pending =>
    deepestFrom (max deepest level) ((right, level + 1) :: (left, level + 1) :: pending)
termination_by pending => steps pending
decreasing_by
  all_goals simp only [steps, size]; omega

/-- The number of entries on the longest path from the root, counted without recursion on the tree. -/
def depth (t : SymbolTable α) : Nat :=
  deepestFrom 0 [(t, 1)]

/-- The walk passes over a whole part before it goes on, and notes its deepest level. -/
theorem deepestFrom_cons {deepest level : Nat} (t : SymbolTable α) (h : level ≤ deepest)
    (pending : List (SymbolTable α × Nat)) :
    deepestFrom deepest ((t, level + 1) :: pending) =
      deepestFrom (max deepest (level + t.height)) pending := by
  induction t generalizing deepest level pending with
  | empty => rw [deepestFrom, height, Nat.add_zero, Nat.max_eq_left h]
  | entry left key value right ihl ihr =>
    rw [deepestFrom, ihr (Nat.le_max_right _ _), ihl (by omega), height]
    congr 1
    omega

/-- The walk finds the longest path. -/
@[simp] theorem depth_eq_height (t : SymbolTable α) : t.depth = t.height := by
  rw [depth, deepestFrom_cons t (Nat.le_refl 0), deepestFrom]
  omega

/-- Writes the shape of a table behind `out`. -/
def shapeOnto (out : String) : SymbolTable α → String
  | empty => out ++ "."
  | entry empty key _ empty => out ++ key
  | entry left key _ right =>
    right.shapeOnto (left.shapeOnto (out ++ "(" ++ key ++ " ") ++ " ") ++ ")"

/-- The tree as text: a point for no entry, the name for a leaf, and `(name left right)` otherwise. -/
def shape (t : SymbolTable α) : String :=
  t.shapeOnto ""

end SymbolTable

end ExprForest

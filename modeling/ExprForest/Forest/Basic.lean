import ExprForest.Tree.Display
import ExprForest.Tree.Walk

namespace ExprForest

/-!
# Forests

* `Forest` — the trees of a buffer, one for each statement line, in order;
* `Forest.Draft` — a forest under construction, which hands its trees out only when it is committed.

A draft has room for any number of trees.  That room is reserved before each statement, and that parsing fails
for want of it, is left out, as are the debug forms of both and the note that a draft was given up.
-/

/-- The trees of a buffer, in order. -/
structure Forest where
  trees : List Tree

namespace Forest

/-- No trees. -/
def empty : Forest := ⟨[]⟩

instance : Inhabited Forest := ⟨empty⟩

/-- The number of trees. -/
def size (f : Forest) : Nat :=
  f.trees.length

/-- Whether there are no trees. -/
def isEmpty (f : Forest) : Bool :=
  f.trees.isEmpty

/-- The tree at a position, counted from zero. -/
def get? (f : Forest) (index : Nat) : Option Tree :=
  f.trees[index]?

/-- Whether two forests hold equal trees in the same order. -/
def beq (a b : Forest) : Bool :=
  a.trees == b.trees

instance : BEq Forest := ⟨beq⟩

/-- The prefix forms of the trees, a line for each. -/
def display (f : Forest) : String :=
  f.trees.foldl (fun out t => out ++ t.display ++ "\n") ""

/-- A forest under construction: its trees, the latest first. -/
structure Draft where
  reversed : List Tree

namespace Draft

/-- No trees yet. -/
def empty : Draft := ⟨[]⟩

/-- The number of trees so far. -/
def size (d : Draft) : Nat :=
  d.reversed.length

/-- Whether there are no trees yet. -/
def isEmpty (d : Draft) : Bool :=
  d.reversed.isEmpty

/-- One more tree. -/
def push (d : Draft) (t : Tree) : Draft :=
  ⟨t :: d.reversed⟩

/-- The forest of the trees pushed, in the order of pushing. -/
def commit (d : Draft) : Forest :=
  ⟨d.reversed.reverse⟩

@[simp] theorem commit_empty : empty.commit.trees = [] := rfl

@[simp] theorem commit_push (d : Draft) (t : Tree) :
    (d.push t).commit.trees = d.commit.trees ++ [t] := by
  simp [push, commit]

end Draft

end Forest

end ExprForest

import ExprForest.Decimal.Format
import ExprForest.Tree.Basic

namespace ExprForest.Tree

/-!
# The prefix form

A node is written `(+ left right)`, a leaf by its number or name: `(= y (call f (, a b)))`.

* `prefixForm` — the form by recursion on the tree;
* `display` — the same text, written from a list of pending pieces so that a deep tree needs no stack.
-/

/-- A number as it is written inside a tree. -/
def numberText (value : Float) : String :=
  Decimal.Format.plain.text value

/-- The prefix form of a tree. -/
def prefixForm : Tree → String
  | number value => numberText value
  | identifier name => name
  | node op left right =>
    "(" ++ op.symbol ++ " " ++ left.prefixForm ++ " " ++ right.prefixForm ++ ")"

/-- What is still to be written. -/
inductive Piece where
  | text (s : String)
  | tree (t : Tree)

/-- A bound on the steps that writing a piece takes. -/
def Piece.weight : Piece → Nat
  | text _ => 1
  | tree t => 3 * t.size

/-- The steps that a list of pieces takes. -/
def totalWeight : List Piece → Nat
  | [] => 0
  | p :: ps => p.weight + totalWeight ps

/-- Writes the pending pieces behind `out`. -/
def write (out : String) : List Piece → String
  | [] => out
  | .text s :: pending => write (out ++ s) pending
  | .tree (number value) :: pending => write (out ++ numberText value) pending
  | .tree (identifier name) :: pending => write (out ++ name) pending
  | .tree (node op left right) :: pending =>
    write (out ++ "(" ++ op.symbol ++ " ")
      (.tree left :: .text " " :: .tree right :: .text ")" :: pending)
termination_by pending => totalWeight pending
decreasing_by
  all_goals
    simp only [totalWeight, Piece.weight, size_node, size_number, size_identifier]
    omega

/-- The text of a piece. -/
def Piece.full : Piece → String
  | text s => s
  | tree t => t.prefixForm

/-- The walk writes the text of each piece in turn. -/
theorem write_eq (out : String) (pending : List Piece) :
    write out pending = pending.foldl (fun out p => out ++ p.full) out := by
  fun_induction write out pending with
  | case1 => rfl
  | case2 _ _ _ ih => rw [ih]; rfl
  | case3 _ _ _ ih => rw [ih]; rfl
  | case4 _ _ _ ih => rw [ih]; rfl
  | case5 _ _ _ _ _ ih =>
    rw [ih]; simp only [List.foldl_cons, Piece.full, prefixForm, String.append_assoc]

/-- The prefix form of a tree of any depth. -/
def display (t : Tree) : String :=
  write "" [.tree t]

/-- The walk writes the prefix form. -/
@[simp] theorem display_eq_prefixForm (t : Tree) : t.display = t.prefixForm := by
  rw [display, write_eq]; simp [Piece.full]

end ExprForest.Tree

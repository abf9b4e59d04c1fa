import ExprForest.Tree.Basic

namespace ExprForest.Tree

/-!
# Building from a tree with fallible constructors

A host rebuilds a tree with three constructors of its own, each of which may refuse and may change
the host's state.  Children come before their parent and left before right; the first refusal ends
the walk.

* `Builder` — the three constructors over a state;
* `fold` — the order of construction, by recursion on the tree;
* `build` — the same calls, made along a list of open nodes so that a deep tree needs no stack.
-/

/-- Host constructors for the three shapes of a node, over a state `σ`, with refusals in `ε` and
    results in `ν`. -/
structure Builder (σ ε ν : Type) where
  number : Float → σ → Except ε ν × σ
  identifier : String → σ → Except ε ν × σ
  node : Operator → ν → ν → σ → Except ε ν × σ

variable {σ ε ν : Type}

/-- Builds the left subtree, then the right one, then the node. -/
def fold (b : Builder σ ε ν) : Tree → σ → Except ε ν × σ
  | number value, s => b.number value s
  | identifier name, s => b.identifier name s
  | node op left right, s =>
    match fold b left s with
    | (.error e, s) => (.error e, s)
    | (.ok l, s) =>
      match fold b right s with
      | (.error e, s) => (.error e, s)
      | (.ok r, s) => b.node op l r s

/-- A node that is waiting for one of its children. -/
inductive OpenNode (ν : Type) where
  /-- The left child is being built; the right one is still to be visited. -/
  | left (op : Operator) (right : Tree)
  /-- The left child is built and the right one is being built. -/
  | right (op : Operator) (left : ν)

/-- Where the walk stands: above a subtree still to be built, or behind one that is built. -/
inductive Focus (ν : Type) where
  | down (t : Tree)
  | up (built : ν)

/-- A bound on the steps from a focus back to the innermost open node. -/
def Focus.weight : Focus ν → Nat
  | down t => 2 * t.size
  | up _ => 1

/-- A bound on the steps that the open nodes still take. -/
def openWeight : List (OpenNode ν) → Nat
  | [] => 0
  | .left _ right :: rest => 2 * right.size + 1 + openWeight rest
  | .right .. :: rest => 1 + openWeight rest

/-- Goes on from `focus` with the open nodes around it, innermost first. -/
def buildFrom (b : Builder σ ε ν) : Focus ν → List (OpenNode ν) → σ → Except ε ν × σ
  | .down (node op left right), opened, s => buildFrom b (.down left) (.left op right :: opened) s
  | .down (number value), opened, s =>
    match b.number value s with
    | (.ok x, s) => buildFrom b (.up x) opened s
    | (.error e, s) => (.error e, s)
  | .down (identifier name), opened, s =>
    match b.identifier name s with
    | (.ok x, s) => buildFrom b (.up x) opened s
    | (.error e, s) => (.error e, s)
  | .up x, [], s => (.ok x, s)
  | .up x, .left op right :: opened, s => buildFrom b (.down right) (.right op x :: opened) s
  | .up x, .right op left :: opened, s =>
    match b.node op left x s with
    | (.ok y, s) => buildFrom b (.up y) opened s
    | (.error e, s) => (.error e, s)
termination_by focus opened => focus.weight + openWeight opened
decreasing_by
  all_goals
    simp only [Focus.weight, openWeight, size_node, size_number, size_identifier]
    omega

/-- Builds a tree of any depth with the constructors of `b`. -/
def build (b : Builder σ ε ν) (t : Tree) (s : σ) : Except ε ν × σ :=
  buildFrom b (.down t) [] s

/-- Building a subtree makes the calls of `fold` and then goes on with what is open around it. -/
theorem buildFrom_down (b : Builder σ ε ν) (t : Tree) (opened : List (OpenNode ν)) (s : σ) :
    buildFrom b (.down t) opened s =
      match fold b t s with
      | (.ok x, s) => buildFrom b (.up x) opened s
      | (.error e, s) => (.error e, s) := by
  induction t generalizing opened s with
  | number value =>
    rw [buildFrom, fold]
  | identifier name =>
    rw [buildFrom, fold]
  | node op left right ihl ihr =>
    rw [buildFrom, ihl, fold]
    -- The left subtree is built; its result waits while the right one is.
    rcases fold b left s with ⟨_ | l, s⟩
    · rfl
    · simp only [buildFrom, ihr]
      rcases fold b right s with ⟨_ | r, s⟩ <;> rfl

/-- Building makes the same calls as the recursion. -/
theorem build_eq_fold (b : Builder σ ε ν) (t : Tree) (s : σ) : t.build b s = t.fold b s := by
  rw [build, buildFrom_down]
  rcases fold b t s with ⟨_ | _, _⟩ <;> simp [buildFrom]

/-! ### Constructors that never refuse -/

/-- Constructors without state and without refusal. -/
def Builder.pure (number : Float → ν) (identifier : String → ν) (node : Operator → ν → ν → ν) :
    Builder Unit Empty ν where
  number value s := (.ok (number value), s)
  identifier name s := (.ok (identifier name), s)
  node op left right s := (.ok (node op left right), s)

/-- Rebuilds a tree with constructors that never refuse. -/
def rebuild (number : Float → ν) (identifier : String → ν) (node : Operator → ν → ν → ν)
    (t : Tree) : ν :=
  match (t.build (.pure number identifier node) ()).1 with
  | .ok x => x

section Rebuild

variable (number : Float → ν) (identifier : String → ν) (node : Operator → ν → ν → ν)

/-- Rebuilding by recursion. -/
theorem fold_pure (t : Tree) :
    fold (.pure number identifier node) t () = (.ok (rebuild number identifier node t), ()) := by
  rw [rebuild, build_eq_fold]
  rcases fold (.pure number identifier node) t () with ⟨e | x, _⟩
  · exact e.elim
  · rfl

@[simp] theorem rebuild_number (value : Float) :
    (Tree.number value).rebuild number identifier node = number value := by
  simp [rebuild, build_eq_fold, fold, Builder.pure]

@[simp] theorem rebuild_identifier (name : String) :
    (Tree.identifier name).rebuild number identifier node = identifier name := by
  simp [rebuild, build_eq_fold, fold, Builder.pure]

@[simp] theorem rebuild_node (op : Operator) (left right : Tree) :
    (Tree.node op left right).rebuild number identifier node =
      node op (left.rebuild number identifier node) (right.rebuild number identifier node) := by
  rw [rebuild, build_eq_fold, fold, fold_pure]
  simp only [fold_pure]
  rfl

end Rebuild

/-- The copy of a tree, made node by node. -/
def copy (t : Tree) : Tree :=
  t.rebuild Tree.number Tree.identifier Tree.node

/-- A copy is the tree itself. -/
@[simp] theorem copy_eq (t : Tree) : t.copy = t := by
  induction t with
  | node op l r ihl ihr => rw [copy, rebuild_node]; congr
  | _ => simp [copy]

end ExprForest.Tree

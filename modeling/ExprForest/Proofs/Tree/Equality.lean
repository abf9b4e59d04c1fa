import ExprForest.Tree.Build
import ExprForest.Tree.Walk
import Mathlib

namespace ExprForest.Tree

/-!
# Equal trees

Two trees compare equal if what stands in one of them at a place stands in the other one there, for all
places.

* `at?`, `label?` — the subtree at a place, and what stands at its root;
* `Label.Agrees` — the same operator, the same name or equal numbers;
* `same_iff_agrees` — trees that are the same agree at every place;
* `DiffersOnce` — trees that differ in one leaf or operator;
* `beq_iff_agrees_everywhere` — put together: comparison is symmetric and transitive, just the trees without
  not-a-number are equal to themselves and to their copies, and one difference is enough.
-/

variable {a b c l l' r r' : Tree} {op op' : Operator}

/-! ### Places -/

/-- The sides of a node. -/
inductive Side where
  | left | right

/-- The subtree at a place, which is told by the sides to take from the root on. -/
def at? : Tree → List Side → Option Tree
  | t, [] => some t
  | node _ left _, .left :: place => left.at? place
  | node _ _ right, .right :: place => right.at? place
  | _, _ :: _ => none

/-- What stands at the root of a tree, apart from its subtrees. -/
inductive Label where
  | number (value : Float)
  | identifier (name : String)
  | operator (op : Operator)

/-- The label of the root. -/
def label : Tree → Label
  | number value => .number value
  | identifier name => .identifier name
  | node op _ _ => .operator op

/-- The label at a place. -/
def label? (t : Tree) (place : List Side) : Option Label :=
  (t.at? place).map label

@[simp] theorem label?_nil (t : Tree) : t.label? [] = some t.label := by
  cases t <;> rfl

/-- Nothing stands below a leaf. -/
theorem label?_of_isTerminal (h : a.isTerminal = true) (side : Side) (place : List Side) :
    a.label? (side :: place) = none := by
  cases a with
  | node op l r => cases h
  | _ => cases side <;> rfl

/-- Labels that agree: the same operator, the same name, or numbers that compare equal. -/
inductive Label.Agrees : Label → Label → Prop where
  | number {x y : Float} :
      (x == y) = true →
      Agrees (.number x) (.number y)
  | identifier {name : String} :
      Agrees (.identifier name) (.identifier name)
  | operator {op : Operator} :
      Agrees (.operator op) (.operator op)

/-- Whether two trees agree at a place: labels that agree stand there, or nothing in both. -/
def AgreesAt (a b : Tree) (place : List Side) : Prop :=
  Option.Rel Label.Agrees (a.label? place) (b.label? place)

/-! ### Numbers -/

theorem number_beq_symm {x y : Float} (h : (x == y) = true) : (y == x) = true := by
  rw [Float.beq_iff_ne_nan_and_eq] at h ⊢
  tauto

theorem number_beq_trans {x y z : Float} (h : (x == y) = true) (h' : (y == z) = true) :
    (x == z) = true := by
  rw [Float.beq_iff_ne_nan_and_eq] at h h' ⊢
  obtain ⟨hx, hy, rfl | hzeros⟩ := h
  · exact h'
  obtain ⟨-, hz, rfl | hzeros'⟩ := h'
  · exact ⟨hx, hz, .inr hzeros⟩
  · -- zero, minus zero and zero again
    refine ⟨hx, hz, .inl ?_⟩
    have hsigns : (0 : Float) ≠ -0 := by decide +kernel
    rcases hzeros with ⟨rfl, rfl⟩ | ⟨rfl, rfl⟩ <;> rcases hzeros' with ⟨h, rfl⟩ | ⟨h, rfl⟩
    · exact absurd h hsigns.symm
    · rfl
    · rfl
    · exact absurd h hsigns

/-- Just not-a-number differs from itself. -/
theorem number_beq_self_iff {x : Float} : (x == x) = true ↔ x.isNaN = false := by
  rw [Float.beq_self_iff, Float.isNaN_eq_decide_eq_nan, decide_eq_false_iff_not]

/-! ### Labels -/

theorem Label.Agrees.symm {x y : Label} (h : x.Agrees y) : y.Agrees x := by
  cases h with
  | number h => exact .number (number_beq_symm h)
  | identifier => exact .identifier
  | operator => exact .operator

theorem Label.Agrees.trans {x y z : Label} (h : x.Agrees y) (h' : y.Agrees z) : x.Agrees z := by
  cases h with
  | number h =>
    obtain ⟨h'⟩ := h'
    exact .number (number_beq_trans h h')
  | identifier => exact h'
  | operator => exact h'

/-- Every label but not-a-number agrees with itself. -/
theorem Label.agrees_self_iff {x : Label} :
    x.Agrees x ↔ ∀ value, x = .number value → value.isNaN = false := by
  cases x with
  | number value =>
    constructor
    · rintro ⟨h⟩ _ ⟨⟩
      exact number_beq_self_iff.mp h
    · exact fun h => .number (number_beq_self_iff.mpr (h value rfl))
  | identifier name => exact iff_of_true .identifier nofun
  | operator op => exact iff_of_true .operator nofun

theorem AgreesAt.symm {place : List Side} (h : a.AgreesAt b place) : b.AgreesAt a place := by
  unfold AgreesAt at h ⊢
  revert h
  generalize a.label? place = x, b.label? place = y
  rintro (h | _)
  · exact .some h.symm
  · exact .none

theorem AgreesAt.trans {place : List Side} (h : a.AgreesAt b place) (h' : b.AgreesAt c place) :
    a.AgreesAt c place := by
  unfold AgreesAt at h h' ⊢
  revert h h'
  generalize a.label? place = x, b.label? place = y, c.label? place = z
  rintro (h | _) h'
  · obtain h' | _ := h'
    exact .some (h.trans h')
  · exact h'

/-- A tree agrees with itself at a place unless not-a-number stands there. -/
theorem agreesAt_self_iff {place : List Side} :
    a.AgreesAt a place ↔ ∀ value, a.label? place = some (.number value) → value.isNaN = false := by
  unfold AgreesAt
  cases a.label? place with
  | none => exact iff_of_true .none nofun
  | some x =>
    rw [Option.rel_some_some, Label.agrees_self_iff]
    simp only [Option.some.injEq]

/-! ### Agreeing everywhere -/

/-- Trees agree at their roots. -/
theorem agreesAt_nil_iff : a.AgreesAt b [] ↔ a.label.Agrees b.label := by
  rw [AgreesAt, label?_nil, label?_nil]
  exact Option.rel_some_some

/-- Leaves agree everywhere if they agree at the root. -/
theorem agreesAt_iff_of_isTerminal (ha : a.isTerminal = true) (hb : b.isTerminal = true) :
    (∀ place, a.AgreesAt b place) ↔ a.label.Agrees b.label := by
  refine ⟨fun h => agreesAt_nil_iff.mp (h []), fun h place => ?_⟩
  cases place with
  | nil => exact agreesAt_nil_iff.mpr h
  | cons side place =>
    rw [AgreesAt, label?_of_isTerminal ha, label?_of_isTerminal hb]
    exact .none

/-- Nodes agree everywhere if their operators are the same and their subtrees agree everywhere. -/
theorem agreesAt_node_iff :
    (∀ place, (node op l r).AgreesAt (node op' l' r') place) ↔
      op = op' ∧ (∀ place, l.AgreesAt l' place) ∧ ∀ place, r.AgreesAt r' place := by
  constructor
  · intro h
    obtain ⟨⟩ := agreesAt_nil_iff.mp (h [])
    exact ⟨rfl, fun place => h (.left :: place), fun place => h (.right :: place)⟩
  · rintro ⟨rfl, hl, hr⟩ place
    rcases place with _ | ⟨_ | _, place⟩
    · exact agreesAt_nil_iff.mpr .operator
    · exact hl place
    · exact hr place

/-- Leaves are the same exactly if they agree everywhere. -/
theorem same_iff_agrees_of_isTerminal (ha : a.isTerminal = true) (hb : b.isTerminal = true) :
    Same a b ↔ ∀ place, a.AgreesAt b place := by
  rw [agreesAt_iff_of_isTerminal ha hb]
  cases a with
  | node op l r => cases ha
  | number x =>
    cases b with
    | node op l r => cases hb
    | number y => exact ⟨.number, by rintro ⟨h⟩; exact h⟩
    | identifier name => exact iff_of_false id nofun
  | identifier name =>
    cases b with
    | node op l r => cases hb
    | number y => exact iff_of_false id nofun
    | identifier name' => exact ⟨by rintro ⟨⟩; exact .identifier, by rintro ⟨⟩; rfl⟩

/-- A leaf and a node do not agree at the root. -/
theorem not_agreesAt_leaf_node (ha : a.isTerminal = true) :
    ¬∀ place, a.AgreesAt (node op l r) place := by
  intro h
  have hroot := agreesAt_nil_iff.mp (h [])
  cases a with
  | node op l r => cases ha
  | _ => cases hroot

/-- Trees are the same exactly if they agree at every place. -/
theorem same_iff_agrees : Same a b ↔ ∀ place, a.AgreesAt b place := by
  induction a generalizing b with
  | node op l r ihl ihr =>
    cases b with
    | node op' l' r' => rw [Same, ihl, ihr, agreesAt_node_iff]
    | _ => exact iff_of_false id fun h => not_agreesAt_leaf_node rfl fun place => (h place).symm
  | number x =>
    have hx : (number x).isTerminal = true := rfl
    cases b with
    | node op l r => exact iff_of_false id (not_agreesAt_leaf_node hx)
    | _ => exact same_iff_agrees_of_isTerminal hx rfl
  | identifier name =>
    have hname : (identifier name).isTerminal = true := rfl
    cases b with
    | node op l r => exact iff_of_false id (not_agreesAt_leaf_node hname)
    | _ => exact same_iff_agrees_of_isTerminal hname rfl

/-! ### One difference -/

/-- Trees that differ in one leaf or one operator, wherever it stands. -/
inductive DiffersOnce : Tree → Tree → Prop where
  | leaf {a b : Tree} :
      a.isTerminal = true → b.isTerminal = true → ¬a.label.Agrees b.label →
      DiffersOnce a b
  | operator {op op' : Operator} {l r : Tree} :
      op ≠ op' →
      DiffersOnce (.node op l r) (.node op' l r)
  | left {op : Operator} {l l' r : Tree} :
      DiffersOnce l l' →
      DiffersOnce (.node op l r) (.node op l' r)
  | right {op : Operator} {l r r' : Tree} :
      DiffersOnce r r' →
      DiffersOnce (.node op l r) (.node op l r')

theorem DiffersOnce.not_same (h : DiffersOnce a b) : ¬Same a b := by
  induction h with
  | leaf ha hb hlabel => rwa [same_iff_agrees, agreesAt_iff_of_isTerminal ha hb]
  | operator hop => exact fun h => hop h.1
  | left _ ih => exact fun h => ih h.2.1
  | right _ ih => exact fun h => ih h.2.2

/-! ### Comparison -/

/-- Trees compare equal exactly if they agree at every place. -/
theorem beq_eq_true_iff : (a == b) = true ↔ ∀ place, a.AgreesAt b place :=
  (beq_iff_same a b).trans same_iff_agrees

/-- **Equality is structural.**  The walk over pairs of subtrees finds two trees equal exactly if at every
    place both have the same operator, the same name or equal numbers, or neither has anything.  Hence
    equality is symmetric and transitive; a tree is equal to itself, and to its copy, exactly if not-a-number
    stands nowhere in it; and trees that differ in one leaf or operator are not equal. -/
theorem beq_iff_agrees_everywhere :
    (∀ a b : Tree, (a == b) = true ↔ ∀ place, a.AgreesAt b place) ∧
      (∀ a b : Tree, (a == b) = (b == a)) ∧
      (∀ a b c : Tree, (a == b) = true → (b == c) = true → (a == c) = true) ∧
      (∀ a : Tree, (a == a) = true ↔
        ∀ place value, a.label? place = some (.number value) → value.isNaN = false) ∧
      (∀ a : Tree, (a == a.copy) = (a == a) ∧ (a.copy == a) = (a == a)) ∧
      ∀ a b : Tree, DiffersOnce a b → (a == b) = false := by
  refine ⟨fun a b => beq_eq_true_iff, fun a b => ?_, fun a b c hab hbc => ?_, fun a => ?_, fun a => ?_,
    fun a b h => ?_⟩
  · rw [Bool.eq_iff_iff, beq_eq_true_iff, beq_eq_true_iff]
    exact forall_congr' fun place => ⟨AgreesAt.symm, AgreesAt.symm⟩
  · rw [beq_eq_true_iff] at hab hbc ⊢
    exact fun place => (hab place).trans (hbc place)
  · rw [beq_eq_true_iff]
    exact forall_congr' fun place => agreesAt_self_iff
  · rw [copy_eq]
    exact ⟨rfl, rfl⟩
  · rw [Bool.eq_false_iff]
    exact fun hbeq => h.not_same ((beq_iff_same a b).mp hbeq)

end ExprForest.Tree

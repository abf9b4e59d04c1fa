import ExprForest.Tree.Build
import Mathlib

namespace ExprForest.Tree

/-!
# Building a tree, call by call

What `Tree.build` asks of the host's constructors, and when.

* `Builder.recorded` — the same constructors, with a record of their calls and answers beside the state;
* `Builds` — the calls, the result and the state of building a tree, node by node;
* `Builds.fold_recorded`, `exists_builds` — building gives just that, for every tree and all constructors;
* `Builds.postorder`, `Builds.refused` — a tree that is built is built in postorder, and otherwise the
  last call is the only one refused;
* `buildBySteps?` — the walk over a stack of pending steps and a stack of built nodes, each of which must
  hold what is taken from it;
* `build_calls_in_postorder` — put together.
-/

variable {σ ε ν : Type} {b : Builder σ ε ν} {t : Tree} {s s' : σ} {x : Except ε ν}

/-! ### Calls -/

/-- A call of one of the host's constructors. -/
inductive Call (ν : Type) where
  | number (value : Float)
  | identifier (name : String)
  | node (op : Operator) (left right : ν)

/-- What a call is about, without the results that are passed to it. -/
def Call.label : Call ν → Call Unit
  | number value => .number value
  | identifier name => .identifier name
  | node op _ _ => .node op () ()

/-- The nodes of a tree, every one behind its subtrees and the left subtree before the right one. -/
def postorder : Tree → List (Call Unit)
  | number value => [.number value]
  | identifier name => [.identifier name]
  | node op left right => left.postorder ++ right.postorder ++ [.node op () ()]

/-- Every node stands in the postorder once. -/
theorem length_postorder (t : Tree) : t.postorder.length = t.size := by
  induction t with
  | node op left right ihl ihr =>
    simp only [postorder, List.length_append, List.length_singleton, ihl, ihr, size_node]
    omega
  | _ => rfl

/-- Calls with the answers to them, in the order in which they were made. -/
abbrev Record (ε ν : Type) := List (Call ν × Except ε ν)

/-- The labels of the calls on a record. -/
def Record.labels (calls : Record ε ν) : List (Call Unit) :=
  calls.map fun c => c.1.label

/-- Whether all calls on a record were answered with a result. -/
def Record.Granted (calls : Record ε ν) : Prop :=
  ∀ c ∈ calls, ∃ y, c.2 = .ok y

/-- The same constructors, which keep a record of their calls and answers behind the state. -/
def Builder.recorded (b : Builder σ ε ν) : Builder (σ × Record ε ν) ε ν where
  number value s :=
    let (x, s') := b.number value s.1
    (x, s', s.2 ++ [(.number value, x)])
  identifier name s :=
    let (x, s') := b.identifier name s.1
    (x, s', s.2 ++ [(.identifier name, x)])
  node op left right s :=
    let (x, s') := b.node op left right s.1
    (x, s', s.2 ++ [(.node op left right, x)])

/-- What building a tree amounts to: the calls with their answers, the result and the state behind it.
    The left subtree is built before the right one and both before the node, which is given their
    results.  A refusal is the result, and nothing is called behind it. -/
inductive Builds (b : Builder σ ε ν) : Tree → σ → Record ε ν → Except ε ν → σ → Prop where
  | number {value : Float} {s s' : σ} {x : Except ε ν} :
      b.number value s = (x, s') →
      Builds b (.number value) s [(.number value, x)] x s'
  | identifier {name : String} {s s' : σ} {x : Except ε ν} :
      b.identifier name s = (x, s') →
      Builds b (.identifier name) s [(.identifier name, x)] x s'
  /-- Both subtrees are built. -/
  | node {op : Operator} {left right : Tree} {s s₁ s₂ s' : σ} {l r : ν} {x : Except ε ν}
      {before between : Record ε ν} :
      Builds b left s before (.ok l) s₁ → Builds b right s₁ between (.ok r) s₂ →
      b.node op l r s₂ = (x, s') →
      Builds b (.node op left right) s (before ++ between ++ [(.node op l r, x)]) x s'
  /-- The left subtree is refused. -/
  | left {op : Operator} {left right : Tree} {s s' : σ} {e : ε} {before : Record ε ν} :
      Builds b left s before (.error e) s' →
      Builds b (.node op left right) s before (.error e) s'
  /-- The left subtree is built and the right one is refused. -/
  | right {op : Operator} {left right : Tree} {s s₁ s' : σ} {l : ν} {e : ε}
      {before between : Record ε ν} :
      Builds b left s before (.ok l) s₁ → Builds b right s₁ between (.error e) s' →
      Builds b (.node op left right) s (before ++ between) (.error e) s'

/-! ### Building -/

variable {calls : Record ε ν}

/-- Building makes the calls that it amounts to, behind those made before. -/
theorem Builds.fold_recorded (h : Builds b t s calls x s') (earlier : Record ε ν) :
    t.fold b.recorded (s, earlier) = (x, s', earlier ++ calls) := by
  induction h generalizing earlier with
  | number hcall => simp only [fold, Builder.recorded, hcall]
  | identifier hcall => simp only [fold, Builder.recorded, hcall]
  | node _ _ hcall ihl ihr =>
    simp only [fold, ihl, ihr]
    simp only [Builder.recorded, hcall, List.append_assoc]
  | left _ ih => simp only [fold, ih]
  | right _ _ ihl ihr => simp only [fold, ihl, ihr, List.append_assoc]

/-- The record makes no difference to the result and the state. -/
theorem Builds.fold_eq (h : Builds b t s calls x s') : t.fold b s = (x, s') := by
  induction h with
  | number hcall => rw [fold, hcall]
  | identifier hcall => rw [fold, hcall]
  | node _ _ hcall ihl ihr => simp only [fold, ihl, ihr, hcall]
  | left _ ih => simp only [fold, ih]
  | right _ _ ihl ihr => simp only [fold, ihl, ihr]

/-- Building any tree amounts to some calls. -/
theorem exists_builds (b : Builder σ ε ν) (t : Tree) (s : σ) :
    ∃ calls x s', Builds b t s calls x s' := by
  induction t generalizing s with
  | number value => exact ⟨_, _, _, .number rfl⟩
  | identifier name => exact ⟨_, _, _, .identifier rfl⟩
  | node op left right ihl ihr =>
    obtain ⟨before, l, s₁, hl⟩ := ihl s
    cases l with
    | error e => exact ⟨_, _, _, .left hl⟩
    | ok l =>
      obtain ⟨between, r, s₂, hr⟩ := ihr s₁
      cases r with
      | error e => exact ⟨_, _, _, .right hl hr⟩
      | ok r => exact ⟨_, _, _, .node hl hr rfl⟩

/-! ### The order of calls -/

theorem Record.labels_append (before behind : Record ε ν) :
    Record.labels (before ++ behind) = before.labels ++ behind.labels :=
  List.map_append

theorem Record.Granted.append {before behind : Record ε ν} (h : before.Granted)
    (h' : behind.Granted) : (before ++ behind).Granted := by
  intro c hc
  rcases List.mem_append.mp hc with hc | hc
  · exact h c hc
  · exact h' c hc

/-- A tree that is built takes one call for each of its nodes, in postorder, and all are granted. -/
theorem Builds.postorder {y : ν} (h : Builds b t s calls (.ok y) s') :
    calls.labels = t.postorder ∧ calls.Granted := by
  generalize hx : (.ok y : Except ε ν) = x at h
  induction h generalizing y with
  | number _ =>
    subst hx
    exact ⟨rfl, fun c hc => ⟨y, by rw [List.mem_singleton.mp hc]⟩⟩
  | identifier _ =>
    subst hx
    exact ⟨rfl, fun c hc => ⟨y, by rw [List.mem_singleton.mp hc]⟩⟩
  | node _ _ _ ihl ihr =>
    subst hx
    obtain ⟨hleft, hleft'⟩ := ihl rfl
    obtain ⟨hright, hright'⟩ := ihr rfl
    refine ⟨?_, (hleft'.append hright').append fun c hc => ⟨y, by rw [List.mem_singleton.mp hc]⟩⟩
    rw [Record.labels_append, Record.labels_append, hleft, hright]
    rfl
  | left _ _ => cases hx
  | right _ _ _ _ => cases hx

/-- A tree that is refused is refused by the last call, the calls before which are all granted, and the
    calls are a start of the postorder. -/
theorem Builds.refused {e : ε} (h : Builds b t s calls (.error e) s') :
    calls.labels <+: t.postorder ∧
      ∃ granted call, calls = granted ++ [(call, .error e)] ∧ Record.Granted granted := by
  generalize hx : (.error e : Except ε ν) = x at h
  induction h with
  | number _ =>
    subst hx
    exact ⟨List.prefix_rfl, [], _, rfl, fun c hc => absurd hc List.not_mem_nil⟩
  | identifier _ =>
    subst hx
    exact ⟨List.prefix_rfl, [], _, rfl, fun c hc => absurd hc List.not_mem_nil⟩
  | node hleft hright _ _ _ =>
    subst hx
    obtain ⟨hl, hl'⟩ := hleft.postorder
    obtain ⟨hr, hr'⟩ := hright.postorder
    refine ⟨?_, _, _, rfl, hl'.append hr'⟩
    rw [Record.labels_append, Record.labels_append, hl, hr]
    exact List.prefix_rfl
  | left _ ih =>
    obtain ⟨hlabels, hlast⟩ := ih hx
    refine ⟨hlabels.trans ?_, hlast⟩
    rw [Tree.postorder, List.append_assoc]
    exact List.prefix_append _ _
  | right hleft _ _ ih =>
    obtain ⟨hl, hl'⟩ := hleft.postorder
    obtain ⟨hlabels, granted, call, rfl, hgranted⟩ := ih hx
    refine ⟨?_, _, call, (List.append_assoc _ _ _).symm, hl'.append hgranted⟩
    rw [Record.labels_append, hl, Tree.postorder, List.append_assoc]
    exact (List.prefix_append_right_inj _).mpr (hlabels.trans (List.prefix_append _ _))

/-! ### Two stacks -/

/-- What is pending in the walk over two stacks. -/
inductive Step where
  /-- A subtree is to be built. -/
  | visit (t : Tree)
  /-- The two nodes built last are to be joined. -/
  | combine (op : Operator)

/-- A bound on the steps that a stack of pending ones takes. -/
def stepsWeight : List Step → Nat
  | [] => 0
  | .visit t :: steps => 2 * t.size + stepsWeight steps
  | .combine _ :: steps => 1 + stepsWeight steps

/-- Takes the pending steps.  Visiting a node puts its subtrees and itself on the stack of steps, and
    every result is put on the stack of built nodes.  Gives nothing if a node is to be joined of which no
    two subtrees are built, or if nothing is built in the end. -/
def buildBySteps? (b : Builder σ ε ν) : List Step → List ν → σ → Option (Except ε ν × σ)
  | [], root :: _, s => some (.ok root, s)
  | [], [], _ => none
  | .visit (.node op left right) :: steps, built, s =>
    buildBySteps? b (.visit left :: .visit right :: .combine op :: steps) built s
  | .visit (.number value) :: steps, built, s =>
    match b.number value s with
    | (.ok x, s) => buildBySteps? b steps (x :: built) s
    | (.error e, s) => some (.error e, s)
  | .visit (.identifier name) :: steps, built, s =>
    match b.identifier name s with
    | (.ok x, s) => buildBySteps? b steps (x :: built) s
    | (.error e, s) => some (.error e, s)
  | .combine op :: steps, right :: left :: built, s =>
    match b.node op left right s with
    | (.ok x, s) => buildBySteps? b steps (x :: built) s
    | (.error e, s) => some (.error e, s)
  | .combine _ :: _, _, _ => none
termination_by steps => stepsWeight steps
decreasing_by
  all_goals
    simp only [stepsWeight, size_node, size_number, size_identifier]
    omega

/-- Visiting a subtree makes the calls of `fold` and leaves its result on the stack of built nodes, under
    which nothing has changed. -/
theorem buildBySteps?_visit (b : Builder σ ε ν) (t : Tree) (steps : List Step) (built : List ν)
    (s : σ) :
    buildBySteps? b (.visit t :: steps) built s =
      match t.fold b s with
      | (.ok x, s) => buildBySteps? b steps (x :: built) s
      | (.error e, s) => some (.error e, s) := by
  induction t generalizing steps built s with
  | number value => rw [buildBySteps?, fold]
  | identifier name => rw [buildBySteps?, fold]
  | node op left right ihl ihr =>
    rw [buildBySteps?, ihl, fold]
    -- the results of both subtrees lie on top when the node is joined, the right one first
    rcases left.fold b s with ⟨_ | l, s⟩
    · rfl
    · simp only [ihr]
      rcases right.fold b s with ⟨_ | r, s⟩
      · rfl
      · simp only [buildBySteps?]

/-! ### The whole -/

/-- **Postorder.**  Building a tree gives the result and the state of the recursion over it, left before
    right before node, and so does the walk over two stacks, which never misses a node.  The constructors
    are called accordingly: for a tree that is built once for each node, in postorder and all of them
    granted; otherwise in that order up to the first call that is refused, whose refusal is the
    result.  A copy, which is built in this way, is the tree itself. -/
theorem build_calls_in_postorder :
    (∀ (σ ε ν : Type) (b : Builder σ ε ν) (t : Tree) (s : σ),
      t.build b s = t.fold b s ∧
        buildBySteps? b [.visit t] [] s = some (t.build b s) ∧
        ∃ calls,
          t.build b.recorded (s, []) = ((t.build b s).1, (t.build b s).2, calls) ∧
            Builds b t s calls (t.build b s).1 (t.build b s).2 ∧
            match (t.build b s).1 with
            | .ok _ => calls.labels = t.postorder ∧ calls.length = t.size ∧ calls.Granted
            | .error e => calls.labels <+: t.postorder ∧
                ∃ granted call, calls = granted ++ [(call, .error e)] ∧ Record.Granted granted) ∧
      ∀ t : Tree, t.copy = t := by
  refine ⟨fun σ ε ν b t s => ⟨build_eq_fold b t s, ?_, ?_⟩, copy_eq⟩
  · rw [build_eq_fold, buildBySteps?_visit]
    rcases t.fold b s with ⟨_ | x, s⟩
    · rfl
    · simp only [buildBySteps?]
  · obtain ⟨calls, x, s', hbuilds⟩ := exists_builds b t s
    have hbuild : t.build b s = (x, s') := by rw [build_eq_fold, hbuilds.fold_eq]
    have hrecorded := hbuilds.fold_recorded []
    rw [← build_eq_fold, List.nil_append] at hrecorded
    rw [hbuild]
    refine ⟨calls, hrecorded, hbuilds, ?_⟩
    cases x with
    | ok y =>
      obtain ⟨hlabels, hgranted⟩ := hbuilds.postorder
      refine ⟨hlabels, ?_, hgranted⟩
      rw [← length_postorder, ← hlabels, Record.labels, List.length_map]
    | error e => exact hbuilds.refused

end ExprForest.Tree

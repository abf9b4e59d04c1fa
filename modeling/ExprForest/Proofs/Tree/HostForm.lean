import ExprForest.Proofs.Tree.Building
import ExprForest.Proofs.Tree.RoundTrip
import ExprForest.Tree.Walk

namespace ExprForest

/-!
# The host form of trees

The builder of the host form has no place for a number that is not finite, and counts the nodes it makes.

* `Json.Value.Equal` — JSON values that compare equal, which doubles do as doubles;
* `Tree.hostForm` — the host form by recursion on the tree;
* `Tree.HostEnds` — how building ends and how many nodes it makes until then, and `Tree.exists_hostEnds` —
  every building ends so;
* `Tree.HostGrows` — the count over several buildings, some of which may be refused;
* `Tree.hostForm_injective`, `Tree.equal_hostForm_iff` — the host form tells trees apart;
* `Tree.toHost_exact_injective` — put together.
-/

/-! ### JSON values -/

namespace Json

/-- Numbers that compare equal: the same whole number, or doubles that compare equal. -/
inductive Number.Equal : Number → Number → Prop where
  | unsigned {n : Nat} :
      Equal (.unsigned n) (.unsigned n)
  | negative {n : Nat} :
      Equal (.negative n) (.negative n)
  | float {x y : Float} :
      (x == y) = true →
      Equal (.float x) (.float y)

/-- Values that compare equal, part by part. -/
inductive Value.Equal : Value → Value → Prop where
  | null :
      Equal .null .null
  | bool {b : Bool} :
      Equal (.bool b) (.bool b)
  | number {m n : Number} :
      m.Equal n →
      Equal (.number m) (.number n)
  | string {s : String} :
      Equal (.string s) (.string s)
  | array {vs ws : List Value} :
      List.Forall₂ Equal vs ws →
      Equal (.array vs) (.array ws)
  | object {ms ns : List (String × Value)} :
      ms.map Prod.fst = ns.map Prod.fst → List.Forall₂ Equal (ms.map Prod.snd) (ns.map Prod.snd) →
      Equal (.object ms) (.object ns)

theorem Value.equal_float_iff {x y : Float} :
    Equal (.number (.float x)) (.number (.float y)) ↔ (x == y) = true := by
  refine ⟨fun h => ?_, fun h => .number (.float h)⟩
  cases h with
  | number h =>
    cases h with
    | float h => exact h

theorem Value.equal_unsigned_iff {m n : Nat} :
    Equal (.number (.unsigned m)) (.number (.unsigned n)) ↔ m = n := by
  refine ⟨fun h => ?_, fun h => h ▸ .number .unsigned⟩
  cases h with
  | number h =>
    cases h with
    | unsigned => rfl

theorem Value.equal_string_iff {s s' : String} : Equal (.string s) (.string s') ↔ s = s' := by
  refine ⟨fun h => ?_, fun h => h ▸ .string⟩
  cases h with
  | string => rfl

theorem Value.equal_array_iff {vs ws : List Value} :
    Equal (.array vs) (.array ws) ↔ List.Forall₂ Equal vs ws := by
  refine ⟨fun h => ?_, .array⟩
  cases h with
  | array h => exact h

theorem Value.equal_object_iff {ms ns : List (String × Value)} :
    Equal (.object ms) (.object ns) ↔
      ms.map Prod.fst = ns.map Prod.fst ∧
        List.Forall₂ Equal (ms.map Prod.snd) (ns.map Prod.snd) := by
  refine ⟨fun h => ?_, fun ⟨hnames, hvalues⟩ => .object hnames hvalues⟩
  cases h with
  | object hnames hvalues => exact ⟨hnames, hvalues⟩

end Json

/-- Two operators never share a code, read as a natural number. -/
theorem Operator.eq_of_toNat_code_eq {a b : Operator} (h : a.code.toNat = b.code.toNat) : a = b := by
  have hnonneg : ∀ op : Operator, 0 ≤ op.code := fun op => by cases op <;> decide
  have ha := hnonneg a
  have hb := hnonneg b
  exact code_injective (by omega)

namespace Tree

open Json (Value)

variable {t u : Tree} {x : Float} {n : Nat} {result : Except NotFinite Value}

/-! ### One tree -/

/-- The host form of a tree whose numbers are all finite. -/
def hostForm : Tree → Value
  | number value => .object [("number", .number (.float value))]
  | identifier name => .object [("id", .string name)]
  | node op left right =>
    .object [("left", left.hostForm), ("operator", .number (.unsigned op.code.toNat)),
      ("right", right.hostForm)]

/-- How the building of the host form of a tree ends: its result, and the number of nodes that are made.  The
    first number in postorder that is not finite is refused, and the nodes before it are made. -/
inductive HostEnds : Tree → Except NotFinite Value → Nat → Prop where
  | made {t : Tree} :
      t.AllFinite →
      HostEnds t (.ok t.hostForm) t.size
  | refused {t : Tree} {before after : List (Call Unit)} {x : Float} :
      t.postorder = before ++ .number x :: after →
      (∀ y, Call.number y ∈ before → y.isFinite = true) → x.isFinite = false →
      HostEnds t (.error ⟨x⟩) before.length

/-- The number that is made by a call, if any. -/
def Call.value? : Call Unit → Option Float
  | number value => some value
  | _ => none

theorem Call.value?_eq_some_iff {c : Call Unit} : c.value? = some x ↔ c = .number x := by
  cases c <;> simp [value?]

/-- The numbers of a tree are those in its postorder, in this order. -/
theorem numbers_eq_filterMap (t : Tree) : t.numbers = t.postorder.filterMap Call.value? := by
  induction t with
  | number value => rfl
  | identifier name => rfl
  | node op left right ihl ihr =>
    simp only [numbers, postorder, List.filterMap_append, ihl, ihr]
    exact (List.append_nil _).symm

theorem number_mem_postorder_iff : Call.number x ∈ t.postorder ↔ x ∈ t.numbers := by
  simp [numbers_eq_filterMap, Call.value?_eq_some_iff]

theorem not_allFinite_of_hostEnds {e : NotFinite} (h : HostEnds t (.error e) n) : ¬t.AllFinite := by
  obtain _ | ⟨hpostorder, -, hlost⟩ := h
  intro hfinite
  have hmem := number_mem_postorder_iff.mp (hpostorder ▸ List.mem_append_right _ List.mem_cons_self)
  rw [hfinite _ hmem] at hlost
  cases hlost

/-- Only finite numbers have a host form. -/
theorem fold_hostBuilder_number (x : Float) (built : Nat) :
    (number x).fold hostBuilder built =
      if x.isFinite then (.ok (.object [("number", .number (.float x))]), built + 1)
      else (.error ⟨x⟩, built) :=
  rfl

/-- Building the host form of any tree ends so, and the count grows by the nodes that are made. -/
theorem exists_hostEnds (t : Tree) (built : Nat) :
    ∃ result n, t.HostEnds result n ∧ t.build hostBuilder built = (result, built + n) := by
  rw [build_eq_fold]
  induction t generalizing built with
  | number x =>
    rw [fold_hostBuilder_number]
    cases hx : x.isFinite with
    | true => exact ⟨_, _, .made ((allFinite_number x).mpr hx), rfl⟩
    | false => exact ⟨_, _, @HostEnds.refused _ [] [] x rfl nofun hx, rfl⟩
  | identifier name => exact ⟨_, _, .made (allFinite_identifier name), rfl⟩
  | node op left right ihl ihr =>
    obtain ⟨_, _, hleft, hl⟩ := ihl built
    cases hleft with
    | @refused before after x hpostorder hbefore hx =>
      have hnode : (node op left right).postorder =
          before ++ .number x :: (after ++ right.postorder ++ [.node op () ()]) := by
        simp only [postorder, hpostorder, List.append_assoc, List.cons_append]
      exact ⟨_, _, .refused hnode hbefore hx, by simp only [fold, hl]⟩
    | made hleft =>
      obtain ⟨_, _, hright, hr⟩ := ihr (built + left.size)
      cases hright with
      | @refused before after x hpostorder hbefore hx =>
        have hnode : (node op left right).postorder =
            (left.postorder ++ before) ++ .number x :: (after ++ [.node op () ()]) := by
          simp only [postorder, hpostorder, List.append_assoc, List.cons_append]
        refine ⟨_, _, .refused hnode (fun y hy => ?_) hx, ?_⟩
        · rcases List.mem_append.mp hy with hy | hy
          · exact hleft y (number_mem_postorder_iff.mp hy)
          · exact hbefore y hy
        · simp only [fold, hl, hr]
          rw [List.length_append, length_postorder, Nat.add_assoc]
      | made hright =>
        have hsize : built + left.size + right.size + 1 = built + (node op left right).size := by
          rw [size_node]
          omega
        refine ⟨_, _, .made ((allFinite_node op left right).mpr ⟨hleft, hright⟩), ?_⟩
        rw [← hsize]
        simp only [fold, hl, hr]
        rfl

/-! ### Several trees -/

/-- The host forms of several trees, or the refusal of the first tree that has none. -/
theorem toHostFrom_ends (made : List Value) (built : Nat) (trees : List Tree) :
    ((∀ t ∈ trees, t.AllFinite) ∧
        toHostFrom made built trees = .ok (.array (made.reverse ++ trees.map hostForm))) ∨
      ∃ earlier t later e n, trees = earlier ++ t :: later ∧ (∀ u ∈ earlier, u.AllFinite) ∧
        t.HostEnds (.error e) n ∧ toHostFrom made built trees = .error e := by
  induction trees generalizing made built with
  | nil => exact .inl ⟨nofun, by rw [toHostFrom, List.map_nil, List.append_nil]⟩
  | cons t trees ih =>
    obtain ⟨result, n, hends, hbuild⟩ := exists_hostEnds t built
    rw [toHostFrom, hbuild]
    cases result with
    | error e => exact .inr ⟨[], t, trees, e, n, rfl, nofun, hends, rfl⟩
    | ok v =>
      cases hends with
      | made hfinite =>
        rcases ih (t.hostForm :: made) (built + t.size) with
          ⟨hall, hhost⟩ | ⟨earlier, u, later, e, n, rfl, hall, hends, hhost⟩
        · refine .inl ⟨List.forall_mem_cons.mpr ⟨hfinite, hall⟩, ?_⟩
          simp only [hhost, List.reverse_cons, List.append_assoc, List.singleton_append, List.map_cons]
        · exact .inr ⟨t :: earlier, u, later, e, n, rfl, List.forall_mem_cons.mpr ⟨hfinite, hall⟩,
            hends, hhost⟩

/-- Builds the host forms of some trees with one builder, one after the other and whatever becomes of each.
    Gives every result with the count behind it. -/
def hostBuilds (built : Nat) : List Tree → List (Except NotFinite Value × Nat)
  | [] => []
  | t :: ts =>
    let (result, built) := t.build hostBuilder built
    (result, built) :: hostBuilds built ts

/-- The results of several buildings with one builder, each with the count behind it: it grows by the nodes
    that the building makes until it ends. -/
inductive HostGrows : Nat → List Tree → List (Except NotFinite Value × Nat) → Prop where
  | done {built : Nat} :
      HostGrows built [] []
  | build {built n : Nat} {t : Tree} {ts : List Tree} {result : Except NotFinite Value}
      {behind : List (Except NotFinite Value × Nat)} :
      t.HostEnds result n → HostGrows (built + n) ts behind →
      HostGrows built (t :: ts) ((result, built + n) :: behind)

theorem hostGrows_hostBuilds (built : Nat) (trees : List Tree) :
    HostGrows built trees (hostBuilds built trees) := by
  induction trees generalizing built with
  | nil => exact .done
  | cons t trees ih =>
    obtain ⟨result, n, hends, hbuild⟩ := exists_hostEnds t built
    simp only [hostBuilds, hbuild]
    exact .build hends (ih (built + n))

/-! ### Telling trees apart -/

/-- Host forms are equal only of equal trees. -/
theorem hostForm_injective : Function.Injective hostForm := by
  intro t u h
  induction t generalizing u with
  | number x =>
    cases u with
    | number y => simpa [hostForm] using h
    | _ => simp [hostForm] at h
  | identifier name =>
    cases u with
    | identifier name' => simpa [hostForm] using h
    | _ => simp [hostForm] at h
  | node op left right ihl ihr =>
    cases u with
    | node op' left' right' =>
      simp only [hostForm, Value.object.injEq, List.cons.injEq, Prod.mk.injEq, true_and, and_true,
        Value.number.injEq, Json.Number.unsigned.injEq] at h
      obtain ⟨hl, hop, hr⟩ := h
      rw [Operator.eq_of_toNat_code_eq hop, ihl hl, ihr hr]
    | _ => simp [hostForm] at h

/-- Host forms compare equal exactly if the trees do. -/
theorem equal_hostForm_iff : t.hostForm.Equal u.hostForm ↔ Same t u := by
  induction t generalizing u with
  | number x =>
    cases u with
    | number y => simp [hostForm, Value.equal_object_iff, Value.equal_float_iff, Same]
    | _ => simp [hostForm, Value.equal_object_iff, Same]
  | identifier name =>
    cases u with
    | identifier name' => simp [hostForm, Value.equal_object_iff, Value.equal_string_iff, Same]
    | _ => simp [hostForm, Value.equal_object_iff, Same]
  | node op left right ihl ihr =>
    cases u with
    | node op' left' right' =>
      have hop : op.code.toNat = op'.code.toNat ↔ op = op' :=
        ⟨Operator.eq_of_toNat_code_eq, fun h => h ▸ rfl⟩
      simp [hostForm, Value.equal_object_iff, Value.equal_unsigned_iff, ihl, ihr, hop, Same,
        and_left_comm]
    | _ => simp [hostForm, Value.equal_object_iff, Same]

/-- Arrays of host forms compare equal exactly if the trees do, one by one. -/
theorem equal_array_hostForm_iff {ts us : List Tree} :
    (Value.array (ts.map hostForm)).Equal (.array (us.map hostForm)) ↔
      List.Forall₂ (fun t u => (t == u) = true) ts us := by
  rw [Value.equal_array_iff, List.forall₂_map_left_iff, List.forall₂_map_right_iff]
  have hiff : ∀ t u : Tree, t.hostForm.Equal u.hostForm ↔ (t == u) = true := fun t u =>
    equal_hostForm_iff.trans (beq_iff_same t u).symm
  simp only [hiff]

/-! ### The whole -/

theorem toHost_eq_of_ok {trees : List Tree} {v : Value} (h : toHost trees = .ok v) :
    (∀ t ∈ trees, t.AllFinite) ∧ v = .array (trees.map hostForm) := by
  rcases toHostFrom_ends [] 0 trees with ⟨hall, hhost⟩ | ⟨_, _, _, _, _, -, -, -, hhost⟩
  · exact ⟨hall, Except.ok.inj (h.symm.trans hhost)⟩
  · cases h.symm.trans hhost

/-- **The host form is exact and injective.**  Several trees have a host form exactly if all their numbers are
    finite, and then it is the array of their host forms; otherwise the first number of the first such tree in
    postorder is refused.  Host forms are equal only of equal trees, and compare equal only of trees that
    do.  The count of a builder grows, from building to building, by the nodes that are made until it ends. -/
theorem toHost_exact_injective :
    (∀ trees : List Tree,
      ((∃ v, toHost trees = .ok v) ↔ ∀ t ∈ trees, t.AllFinite) ∧
        (∀ v, toHost trees = .ok v → v = .array (trees.map hostForm)) ∧
        ∀ e, toHost trees = .error e →
          ∃ earlier t later n, trees = earlier ++ t :: later ∧ (∀ u ∈ earlier, u.AllFinite) ∧
            t.HostEnds (.error e) n) ∧
      (∀ (ts us : List Tree) (v w : Value), toHost ts = .ok v → toHost us = .ok w →
        (v = w ↔ ts = us) ∧ (v.Equal w ↔ List.Forall₂ (fun t u => (t == u) = true) ts us)) ∧
      ∀ (built : Nat) (trees : List Tree), HostGrows built trees (hostBuilds built trees) := by
  refine ⟨fun trees => ⟨⟨?_, fun hall => ?_⟩, fun v hv => (toHost_eq_of_ok hv).2, fun e he => ?_⟩, ?_,
    hostGrows_hostBuilds⟩
  · rintro ⟨v, hv⟩
    exact (toHost_eq_of_ok hv).1
  · rcases toHostFrom_ends [] 0 trees with ⟨-, hhost⟩ | ⟨_, t, _, _, _, rfl, -, hends, -⟩
    · exact ⟨_, hhost⟩
    · exact absurd (hall t (by simp)) (not_allFinite_of_hostEnds hends)
  · rcases toHostFrom_ends [] 0 trees with ⟨-, hhost⟩ | ⟨earlier, t, later, _, n, htrees, hall, hends, hhost⟩
    · cases he.symm.trans hhost
    · cases he.symm.trans hhost
      exact ⟨earlier, t, later, n, htrees, hall, hends⟩
  · intro ts us v w hv hw
    obtain ⟨-, rfl⟩ := toHost_eq_of_ok hv
    obtain ⟨-, rfl⟩ := toHost_eq_of_ok hw
    refine ⟨?_, equal_array_hostForm_iff⟩
    rw [Value.array.injEq]
    exact (List.map_injective_iff.mpr hostForm_injective).eq_iff

end Tree

end ExprForest

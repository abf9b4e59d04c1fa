import ExprForest.Proofs.Json.Objects
import ExprForest.Tree.Decode

namespace ExprForest.Tree

/-!
# Trees are read back from JSON

A tree is written with its kind first, and read by collecting what stands beside the kind.  All of it is
read back but for numbers that are not finite, which are written as `null`, and for brackets that nest too
deep, which only the reader minds.

* `AllFinite`, `ReadsBack` — what is asked of the numbers of a tree;
* `toJson_eq` — the object of a tree: its kind and its other members;
* `Buffered` — these other members as they are collected;
* `Buffered.membersReadAs`, `readsAs_toJson` — that they are, unless brackets nest too deep;
* `Buffered.ofBody_eq`, `Buffered.exists_ofBody_error` — the tree of what was collected;
* `ReadsBack.yields_reader`, `ReadsBack.ofJson_eq_ok_iff` — what is read of the text of a tree, among
  other text and as a whole.
-/

open Json (Value Mismatch Reader MembersReadAs membersText)
open Json.Reader (Yields MembersRun)

variable {t : Tree} {depth : Nat} {ms : List (String × Value)}

/-! ### Numbers -/

/-- The numbers of a tree, from left to right. -/
def numbers : Tree → List Float
  | number value => [value]
  | identifier _ => []
  | node _ left right => left.numbers ++ right.numbers

/-- Whether all numbers of a tree are finite. -/
def AllFinite (t : Tree) : Prop :=
  ∀ x ∈ t.numbers, x.isFinite = true

instance (t : Tree) : Decidable t.AllFinite :=
  List.decidableBAll _ t.numbers

/-- Whether all finite numbers of a tree are the numbers that are read from their texts. -/
def ReadsBack (t : Tree) : Prop :=
  ∀ x ∈ t.numbers, x.isFinite = true → Json.Number.ReadsBack x

instance (t : Tree) : Decidable t.ReadsBack :=
  List.decidableBAll _ t.numbers

@[simp] theorem allFinite_number (x : Float) : (number x).AllFinite ↔ x.isFinite = true :=
  List.forall_mem_singleton

@[simp] theorem allFinite_identifier (name : String) : (identifier name).AllFinite := nofun

@[simp] theorem allFinite_node (op : Operator) (left right : Tree) :
    (node op left right).AllFinite ↔ left.AllFinite ∧ right.AllFinite :=
  List.forall_mem_append

theorem readsBack_node {op : Operator} {left right : Tree} :
    (node op left right).ReadsBack ↔ left.ReadsBack ∧ right.ReadsBack :=
  List.forall_mem_append

/-! ### The object of a tree -/

/-- The kind of the root of a tree. -/
def kind : Tree → Kind
  | number _ => .number
  | identifier _ => .identifier
  | node .. => .nonterminal

/-- The member with the kind of a tree. -/
def Kind.member (k : Kind) : String × Value :=
  ("kind", .string k.word)

/-- The members of the object of a tree beside its kind. -/
def otherMembers : Tree → List (String × Value)
  | number value => [("value", .number (.float value))]
  | identifier name => [("name", .string name)]
  | node op left right => [("op", .string op.word), ("left", left.toJson), ("right", right.toJson)]

/-- The kind of a tree stands before the other members of its object. -/
theorem toJson_eq (t : Tree) : t.toJson = .object (t.kind.member :: t.otherMembers) := by
  cases t with
  | number value => exact rebuild_number _ _ _ value
  | identifier name => exact rebuild_identifier _ _ _ name
  | node op left right => exact rebuild_node _ _ _ op left right

/-- What stands beside the kind of a tree as it is collected from its text.  A number that is not finite
    is lost. -/
inductive Buffered : Tree → List (String × Value) → Prop where
  | number {x : Float} {n : Json.Number} :
      x.isFinite = true → n.toFloat = x →
      (∀ depth, (Value.number (.float x)).ReadsAs depth (some (.number n))) →
      Buffered (.number x) [("value", .number n)]
  | lost {x : Float} :
      x.isFinite = false →
      Buffered (.number x) [("value", .null)]
  | identifier {name : String} :
      Buffered (.identifier name) [("name", .string name)]
  | node {op : Operator} {left right : Tree} {ls rs : List (String × Value)} :
      Buffered left ls → Buffered right rs →
      Buffered (.node op left right)
        [("op", .string op.word), ("left", .object (left.kind.member :: ls)),
          ("right", .object (right.kind.member :: rs))]

theorem ReadsBack.exists_buffered (h : t.ReadsBack) : ∃ ms, Buffered t ms := by
  induction t with
  | number x =>
    cases hx : x.isFinite with
    | false => exact ⟨_, .lost hx⟩
    | true =>
      obtain ⟨n, hn, hread⟩ := (h x List.mem_cons_self hx).exists_readsAs hx
      exact ⟨_, .number hx hn hread⟩
  | identifier name => exact ⟨_, .identifier⟩
  | node op left right ihl ihr =>
    rw [readsBack_node] at h
    obtain ⟨ls, hl⟩ := ihl h.1
    obtain ⟨rs, hr⟩ := ihr h.2
    exact ⟨_, .node hl hr⟩

/-! ### What is collected -/

/-- The whole object of a tree, if what stands beside the kind is collected as deep as it nests. -/
theorem readsAs_toJson
    (h : ∀ depth, MembersReadAs depth t.otherMembers (if t.height ≤ depth + 1 then some ms else none))
    (depth : Nat) :
    t.toJson.ReadsAs depth
      (if t.height ≤ depth then some (.object (t.kind.member :: ms)) else none) := by
  rw [toJson_eq]
  cases depth with
  | zero =>
    rw [if_neg (Nat.not_le_of_gt t.height_pos)]
    exact Value.readsAs_object_zero _
  | succ depth =>
    have hmembers : MembersReadAs depth (t.kind.member :: t.otherMembers) _ :=
      .cons (Value.readsAs_string depth t.kind.word) (h depth)
    have hobject := hmembers.readsAs_object
    split
    · rename_i hheight
      rwa [if_pos hheight] at hobject
    · rename_i hheight
      rwa [if_neg hheight] at hobject

theorem Buffered.membersReadAs (h : Buffered t ms) (depth : Nat) :
    MembersReadAs depth t.otherMembers (if t.height ≤ depth + 1 then some ms else none) := by
  induction h generalizing depth with
  | number _ _ hread => exact .cons (hread depth) .nil
  | lost hx => exact .cons (Value.readsAs_number_lost depth hx) .nil
  | identifier => exact .cons (Value.readsAs_string depth _) .nil
  | @node op left right ls rs _ _ ihl ihr =>
    have hl := readsAs_toJson ihl depth
    have hr := readsAs_toJson ihr depth
    have hop := Value.readsAs_string depth op.word
    rw [height_node]
    by_cases hleft : left.height ≤ depth
    · rw [if_pos hleft] at hl
      by_cases hright : right.height ≤ depth
      · rw [if_pos hright] at hr
        rw [if_pos (by omega)]
        exact .cons hop (.cons hl (.cons hr .nil))
      · rw [if_neg hright] at hr
        rw [if_neg (by omega)]
        exact .cons hop (.cons hl (.refused hr))
    · rw [if_neg hleft] at hl
      rw [if_neg (by omega)]
      exact .cons hop (.refused hl)

/-! ### The tree of what is collected -/

/-- The kind of a tree is not among what stands beside it. -/
theorem Buffered.ne_kind (h : Buffered t ms) : ∀ m ∈ ms, m.1 ≠ "kind" := by
  cases h <;> simp

theorem ne_kind_of_mem_otherMembers (t : Tree) : ∀ m ∈ t.otherMembers, m.1 ≠ "kind" := by
  cases t <;> simp [otherMembers]

theorem Kind.ofMembers_eq (k : Kind) (h : ∀ m ∈ ms, m.1 ≠ "kind") :
    Kind.ofMembers (some k) ms = .ok k := by
  induction ms with
  | nil => rfl
  | cons m ms ih =>
    obtain ⟨hm, hms⟩ := List.forall_mem_cons.mp h
    obtain ⟨name, v⟩ := m
    rw [Kind.ofMembers, if_neg hm]
    exact ih hms

/-- An object with a kind before its other members describes the tree of that kind and those members. -/
theorem ofValue_object (k : Kind) (h : ∀ m ∈ ms, m.1 ≠ "kind") :
    ofValue (.object (k.member :: ms)) = ofBody k (.members ms) := by
  have hkind : Kind.ofMembers none (k.member :: ms) = .ok k := by
    rw [Kind.member, Kind.ofMembers, if_pos rfl]
    simp [Kind.ofValue, Kind.ofMembers_eq k h]
  have hleaf : ∀ {α} (field : String) (read : Value → Except Mismatch α), field ≠ "kind" →
      leafOfMembers field read none (k.member :: ms) = leafOfMembers field read none ms :=
    fun field read hfield => by rw [Kind.member, leafOfMembers, if_neg hfield.symm]
  have hnode : nodeOfMembers none none none (k.member :: ms) = nodeOfMembers none none none ms := by
    rw [Kind.member, nodeOfMembers, if_neg (by decide), if_neg (by decide), if_neg (by decide)]
  rw [ofValue, hkind]
  cases k with
  | number =>
    show number <$> leafOfMembers "value" floatOfValue none (Kind.number.member :: ms) = _
    rw [hleaf _ _ (by decide)]
    rfl
  | identifier =>
    show identifier <$> leafOfMembers "name" nameOfValue none (Kind.identifier.member :: ms) = _
    rw [hleaf _ _ (by decide)]
    rfl
  | nonterminal => exact hnode

/-- A node of an operator by its name and two subtrees. -/
theorem nodeOfMembers_eq (op : Operator) (l r : Value) :
    nodeOfMembers none none none [("op", .string op.word), ("left", l), ("right", r)] =
      ofValue l >>= fun left => ofValue r >>= fun right => .ok (node op left right) := by
  have hop : operatorOfValue (.string op.word) = .ok op := by
    rw [operatorOfValue, operatorOfWord, Operator.ofWord?_word]
  simp only [nodeOfMembers, hop]
  cases ofValue l <;> cases ofValue r <;> rfl

theorem Buffered.ofBody_eq (h : Buffered t ms) (hfinite : t.AllFinite) :
    ofBody t.kind (.members ms) = .ok t := by
  induction h with
  | number _ hn _ =>
    rw [← hn]
    rfl
  | lost hx =>
    rw [allFinite_number, hx] at hfinite
    cases hfinite
  | identifier => rfl
  | @node op left right ls rs hl hr ihl ihr =>
    rw [allFinite_node] at hfinite
    show nodeOfMembers none none none _ = _
    rw [nodeOfMembers_eq, ofValue_object _ hl.ne_kind, ofValue_object _ hr.ne_kind, ihl hfinite.1,
      ihr hfinite.2]
    rfl

theorem Buffered.exists_ofBody_error (h : Buffered t ms) (hfinite : ¬ t.AllFinite) :
    ∃ m, ofBody t.kind (.members ms) = .error m := by
  induction h with
  | number hx _ _ => exact absurd ((allFinite_number _).mpr hx) hfinite
  | lost hx => exact ⟨_, rfl⟩
  | identifier => exact absurd (allFinite_identifier _) hfinite
  | @node op left right ls rs hl hr ihl ihr =>
    show ∃ m, nodeOfMembers none none none _ = _
    rw [nodeOfMembers_eq, ofValue_object _ hl.ne_kind, ofValue_object _ hr.ne_kind]
    by_cases hleft : left.AllFinite
    · -- the right subtree is refused behind the left one
      have hright : ¬ right.AllFinite := fun hright =>
        hfinite ((allFinite_node op left right).mpr ⟨hleft, hright⟩)
      obtain ⟨m, hm⟩ := ihr hright
      rw [hl.ofBody_eq hleft, hm]
      exact ⟨m, rfl⟩
    · obtain ⟨m, hm⟩ := ihl hleft
      rw [hm]
      exact ⟨m, rfl⟩

/-! ### Texts -/

theorem Kind.yields_reader (k : Kind) (rest : List Char) :
    Yields Kind.reader ('"' :: (k.word.toList.flatMap Text.jsonEscaped ++ '"' :: rest))
      (some (k, rest)) := by
  unfold Kind.reader Reader.chosen
  refine Yields.peeked (Yields.settle (Yields.dropped ?_)) rfl
  refine (Json.Literal.yields_read k.word rest).bind ?_
  rw [Kind.ofWord?_word]
  exact Json.Reader.yields_pure k rest

/-- The member with the kind is read first. -/
theorem yields_readMember_kind (k : Kind) (rest : List Char) :
    Yields (readMember depth (none, []) "kind")
      (':' :: '"' :: (k.word.toList.flatMap Text.jsonEscaped ++ '"' :: rest))
      (some ((some k, []), rest)) :=
  Json.Reader.yields_colon.bind (k.yields_reader rest).map

/-- The other members are kept as they are read. -/
theorem yields_readMember {name : String} (hname : name ≠ "kind") (k : Kind)
    (earlier : List (String × Value)) {text : List Char} {o : Option (Value × List Char)}
    (h : Yields (Reader.value depth) text o) :
    Yields (readMember depth (some k, earlier) name) (':' :: text)
      (o.map fun y => ((some k, (name, y.1) :: earlier), y.2)) := by
  unfold readMember
  dsimp only
  rw [if_neg hname]
  exact Json.Reader.yields_colon.bind h.map

/-- What is collected of the members of the object of a tree. -/
theorem Buffered.yields_readMembers (h : Buffered t ms) (depth : Nat) (more : List Char) :
    Yields (readMembers depth)
      (membersText true (t.kind.member :: t.otherMembers) ++ '\x7d' :: more)
      (if t.height ≤ depth + 1 then some ((t.kind, .members ms), '\x7d' :: more) else none) := by
  have hothers := (h.membersReadAs depth).run (readMember depth) (some t.kind, ·)
    (fun m hm earlier _ _ hvalue =>
      yields_readMember (ne_kind_of_mem_otherMembers t m hm) t.kind earlier hvalue) false [] more
  have hrun : MembersRun (readMember depth) true (none, []) _ _ :=
    .next (Json.Literal.yields_read "kind" _)
      (yields_readMember_kind t.kind (membersText false t.otherMembers ++ '\x7d' :: more))
      (by simp; omega) hothers
  have hmembers := hrun.yields
  have htext : membersText true (t.kind.member :: t.otherMembers) ++ '\x7d' :: more =
      Json.Reader.comma true ++ '"' :: ("kind".toList.flatMap Text.jsonEscaped ++ '"' :: ':' :: '"' ::
        (t.kind.word.toList.flatMap Text.jsonEscaped ++
          '"' :: (membersText false t.otherMembers ++ '\x7d' :: more))) := by
    simp [Kind.member, membersText, Json.toList_compact_string]
  rw [htext]
  unfold readMembers
  split
  · rename_i hheight
    rw [if_pos hheight] at hmembers
    refine hmembers.bind ?_
    simpa using Json.Reader.yields_pure _ _
  · rename_i hheight
    rw [if_neg hheight] at hmembers
    exact hmembers.bind_none

/-- What is collected of the object of a tree, unless brackets nest too deep. -/
theorem Buffered.yields_deeper (h : Buffered t ms) (depth : Nat) (more : List Char) :
    Yields (Reader.deeper depth fun depth => Reader.enclosed .curly (readMembers depth))
      ('\x7b' :: (membersText true (t.kind.member :: t.otherMembers) ++ '\x7d' :: more))
      (if t.height ≤ depth then some ((t.kind, .members ms), more) else none) := by
  cases depth with
  | zero =>
    rw [if_neg (Nat.not_le_of_gt t.height_pos)]
    exact Json.Reader.yields_fault _ _
  | succ depth =>
    have hmembers := h.yields_readMembers depth more
    refine Yields.deeper ?_
    split
    · rename_i hheight
      rw [if_pos hheight] at hmembers
      exact Yields.enclosed (b := .curly) hmembers
    · rename_i hheight
      rw [if_neg hheight] at hmembers
      exact hmembers.enclosed_none

/-- **Trees.**  A tree whose finite numbers are read back from their own texts is read back itself, if all
    its numbers are finite and it is not higher than brackets may nest, and is not read at all otherwise. -/
theorem ReadsBack.yields_reader (h : t.ReadsBack) (depth : Nat) (more : List Char) :
    Yields (reader depth) (t.toJson.compact.toList ++ more)
      (if t.AllFinite ∧ t.height ≤ depth then some (t, more) else none) := by
  obtain ⟨ms, hms⟩ := h.exists_buffered
  have htext : t.toJson.compact.toList ++ more =
      '\x7b' :: (membersText true (t.kind.member :: t.otherMembers) ++ '\x7d' :: more) := by
    simp [toJson_eq, Json.toList_compact_object]
  have hbody := hms.yields_deeper depth more
  rw [htext]
  unfold reader
  refine Yields.peeked ?_ rfl
  by_cases hheight : t.height ≤ depth
  · rw [if_pos hheight] at hbody
    refine hbody.bind ?_
    by_cases hfinite : t.AllFinite
    · rw [if_pos ⟨hfinite, hheight⟩]
      simp only [hms.ofBody_eq hfinite]
      exact Json.Reader.yields_pure t more
    · obtain ⟨m, hm⟩ := hms.exists_ofBody_error hfinite
      rw [if_neg (fun hand => hfinite hand.1)]
      simp only [hm]
      exact Json.Reader.yields_unfit m more
  · rw [if_neg hheight] at hbody
    rw [if_neg (fun hand => hheight hand.2)]
    exact hbody.bind_none

/-- The text of a tree as a whole. -/
theorem ReadsBack.ofJson_eq_ok_iff (h : t.ReadsBack) (u : Tree) :
    ofJson t.toJson.render = .ok u ↔ u = t ∧ t.AllFinite ∧ t.height ≤ Json.levels := by
  have hread := h.yields_reader Json.levels []
  rw [List.append_nil, ← Value.render_eq_compact] at hread
  exact hread.readAll_eq_ok_iff u

end ExprForest.Tree

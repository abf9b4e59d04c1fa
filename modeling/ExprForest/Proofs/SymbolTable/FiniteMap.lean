import ExprForest.Proofs.SymbolTable.Ordering
import ExprForest.Proofs.Text.ByteOrder

namespace ExprForest.SymbolTable

/-!
# Symbol tables as finite maps

* `Operation` — what can be done with a table, and `Operation.onTable`, `Operation.onMap` — what it does
  and answers there and on a finite map;
* `Shows` — what a table and a finite map have in common: what is found, listed and counted;
* `Represents` — the invariant behind it, and `Represents.step`, `Represents.run` — it is kept by every
  operation, and the answers are the same;
* `operations_refine_finite_map` — a table that starts empty stays equal to a finite map.
-/

open Text.Utf8 (encode)

variable {α : Type} {t t' : SymbolTable α} {k : String} {v : α}

/-! ### Operations -/

/-- Finite maps from names to values. -/
abbrev Bindings (α : Type) : Type :=
  Finmap fun _ : String => α

/-- What can be done with a table. -/
inductive Operation (α : Type) where
  | insert (k : String) (v : α)
  | lookup (k : String)
  /-- Looks a name up and overwrites its value by one that may depend on it. -/
  | modify (k : String) (f : α → α)
  | clear

namespace Operation

/-- The answer of a table, and the table behind it. -/
def onTable : Operation α → SymbolTable α → Option α × SymbolTable α
  | insert k v, t => t.insert k v
  | lookup k, t => (t.find? k, t)
  | modify k f, t => t.modify k f
  | clear, _ => (none, empty)

/-- The answer of a finite map, and the map behind it. -/
def onMap : Operation α → Bindings α → Option α × Bindings α
  | insert k v, m => (m.lookup k, m.insert k v)
  | lookup k, m => (m.lookup k, m)
  | modify k f, m =>
    match m.lookup k with
    | some v => (some (f v), m.insert k (f v))
    | none => (none, m)
  | clear, _ => (none, ∅)

/-- The answers to operations one after the other, and what they lead to. -/
def run {σ : Type} (step : Operation α → σ → Option α × σ) :
    List (Operation α) → σ → List (Option α) × σ
  | [], s => ([], s)
  | op :: ops, s =>
    let (answer, s) := step op s
    let (answers, s) := run step ops s
    (answer :: answers, s)

/-- The operations that bind some names. -/
def bindAll (bs : List (String × α)) : List (Operation α) :=
  bs.map fun b => insert b.1 b.2

end Operation

open Operation (onTable onMap run bindAll)

/-! ### Invariant -/

/-- Whether a table is a search tree for a finite map. -/
structure Represents (t : SymbolTable α) (m : Bindings α) : Prop where
  ascending : t.Ascending
  find?_eq : ∀ k, t.find? k = m.lookup k

variable {m m' : Bindings α}

theorem represents_empty : (empty : SymbolTable α).Represents ∅ :=
  ⟨ascending_empty, fun _ => by rw [Finmap.lookup_empty, find?]⟩

theorem Represents.insert (h : t.Represents m) (k : String) (v : α) :
    (t.insert k v).2.Represents (m.insert k v) := by
  refine ⟨h.ascending.insert k v, fun j => ?_⟩
  rw [find?_insert]
  by_cases hj : j = k
  · rw [if_pos hj, hj, Finmap.lookup_insert]
  · rw [if_neg hj, Finmap.lookup_insert_of_ne m hj, h.find?_eq]

/-- **One operation.**  A table and the map that it represents give the same answer, and it represents the
    map behind the operation. -/
theorem Represents.step (h : t.Represents m) (op : Operation α) :
    (op.onTable t).1 = (op.onMap m).1 ∧ (op.onTable t).2.Represents (op.onMap m).2 := by
  cases op with
  | insert k v => exact ⟨(insert_fst k v t).trans (h.find?_eq k), h.insert k v⟩
  | lookup k => exact ⟨h.find?_eq k, h⟩
  | modify k f =>
    rw [onTable, modify_eq, h.find?_eq, onMap]
    cases m.lookup k with
    | none => exact ⟨rfl, h⟩
    | some v => exact ⟨rfl, h.insert k (f v)⟩
  | clear => exact ⟨rfl, represents_empty⟩

/-- **Many operations.** -/
theorem Represents.run (h : t.Represents m) (ops : List (Operation α)) :
    (Operation.run onTable ops t).1 = (Operation.run onMap ops m).1 ∧
      (Operation.run onTable ops t).2.Represents (Operation.run onMap ops m).2 := by
  induction ops generalizing t m with
  | nil => exact ⟨rfl, h⟩
  | cons op ops ih =>
    obtain ⟨hanswer, hnext⟩ := h.step op
    obtain ⟨hanswers, hlast⟩ := ih hnext
    exact ⟨congrArg₂ List.cons hanswer hanswers, hlast⟩

/-! ### Listings -/

theorem Represents.mem_toList_iff (h : t.Represents m) :
    (k, v) ∈ t.toList ↔ m.lookup k = some v := by
  rw [← h.ascending.find?_eq_some_iff, h.find?_eq]

theorem Ascending.nodup_keys (h : t.Ascending) : (t.toList.map Prod.fst).Nodup := by
  rw [List.Nodup, List.pairwise_map]
  exact h.imp fun hlt => hlt.ne

/-- As many bindings are listed as names are bound. -/
theorem Represents.length_toList (h : t.Represents m) : t.toList.length = m.keys.card := by
  have hkeys : m.keys = (t.toList.map Prod.fst).toFinset := by
    ext k
    rw [Finmap.mem_keys, Finmap.mem_iff, List.mem_toFinset, List.mem_map]
    constructor
    · rintro ⟨v, hv⟩
      exact ⟨(k, v), h.mem_toList_iff.mpr hv, rfl⟩
    · rintro ⟨⟨k, v⟩, hmem, rfl⟩
      exact ⟨v, h.mem_toList_iff.mp hmem⟩
  rw [hkeys, List.toFinset_card_of_nodup h.ascending.nodup_keys, List.length_map]

/-- Nothing is listed just if nothing is bound. -/
theorem Represents.toList_eq_nil_iff (h : t.Represents m) : t.toList = [] ↔ m = ∅ := by
  constructor
  · intro hnil
    refine Finmap.ext_lookup fun k => ?_
    rw [Finmap.lookup_empty, Option.eq_none_iff_forall_ne_some]
    intro v hv
    have hmem := h.mem_toList_iff.mpr hv
    rw [hnil] at hmem
    exact List.not_mem_nil hmem
  · rintro rfl
    refine List.eq_nil_iff_forall_not_mem.mpr ?_
    rintro ⟨k, v⟩ hmem
    cases h.mem_toList_iff.mp hmem

/-- The map alone decides what is listed. -/
theorem Represents.toList_eq (h : t.Represents m) (h' : t'.Represents m) : t.toList = t'.toList := by
  have hperm : t.toList.Perm t'.toList := by
    have hnodup := h.ascending.nodup_keys.of_map
    have hnodup' := h'.ascending.nodup_keys.of_map
    refine (List.perm_ext_iff_of_nodup hnodup hnodup').mpr ?_
    rintro ⟨k, v⟩
    rw [h.mem_toList_iff, h'.mem_toList_iff]
  exact hperm.eq_of_pairwise (fun a b _ _ hlt hgt => absurd hgt hlt.asymm) h.ascending h'.ascending

/-- The order in which different names are bound makes no difference to a map. -/
theorem run_bindAll_perm {bs bs' : List (String × α)} (hperm : bs.Perm bs')
    (hnodup : (bs.map Prod.fst).Nodup) (m : Bindings α) :
    (run onMap (bindAll bs) m).2 = (run onMap (bindAll bs') m).2 := by
  induction hperm generalizing m with
  | nil => rfl
  | cons b _ ih => exact ih (List.nodup_cons.mp hnodup).2 _
  | swap a b bs =>
    have hne : b.1 ≠ a.1 := fun heq => (List.nodup_cons.mp hnodup).1 (by simp [heq])
    show (run onMap (bindAll bs) ((m.insert b.1 b.2).insert a.1 a.2)).2 = _
    rw [Finmap.insert_insert_of_ne m hne]
    rfl
  | trans hperm _ ih ih' =>
    rw [ih hnodup, ih' ((hperm.map Prod.fst).nodup_iff.mp hnodup)]

/-! ### Refinement -/

/-- What a table and a finite map have in common.  The table finds, iterates over and counts just the
    bindings of the map, in the order of the bytes of their names; and a change in place is an insertion
    of a name that is bound, and nothing otherwise. -/
structure Shows (t : SymbolTable α) (m : Bindings α) : Prop where
  found : ∀ k, t.find? k = m.lookup k
  iterated : t.iter.Yields t.toList
  listed : ∀ k v, (k, v) ∈ t.toList ↔ m.lookup k = some v
  ascending : t.toList.Pairwise fun a b => encode a.1.toList < encode b.1.toList
  counted : t.size = m.keys.card
  empty_iff : t.isEmpty = true ↔ m = ∅
  changed : ∀ k f, t.modify k f =
    match m.lookup k with
    | some v => (some (f v), (t.insert k (f v)).2)
    | none => (none, t)

theorem Represents.shows (h : t.Represents m) : t.Shows m where
  found := h.find?_eq
  iterated := t.yields_iter
  listed _ _ := h.mem_toList_iff
  ascending := h.ascending.imp Text.Utf8.lt_iff_encode_lt.mp
  counted := by rw [size_eq_length, h.length_toList]
  empty_iff := by rw [isEmpty_iff, h.toList_eq_nil_iff]
  changed k f := by
    have hmodify := modify_eq k f t
    rw [h.find?_eq] at hmodify
    exact hmodify

/-- **Refinement.**  A table that starts empty gives the answers of a finite map and shows what the map
    holds, whatever is done; the order in which different names are bound makes no difference to what is
    iterated over. -/
theorem operations_refine_finite_map :
    (∀ ops : List (Operation α),
      (run onTable ops empty).1 = (run onMap ops ∅).1 ∧
        (run onTable ops empty).2.Shows (run onMap ops ∅).2) ∧
      ∀ bs bs' : List (String × α), bs.Perm bs' → (bs.map Prod.fst).Nodup →
        (run onTable (bindAll bs) empty).2.toList = (run onTable (bindAll bs') empty).2.toList := by
  constructor
  · intro ops
    obtain ⟨hanswers, hrepresents⟩ := represents_empty.run ops
    exact ⟨hanswers, hrepresents.shows⟩
  · intro bs bs' hperm hnodup
    have h := (represents_empty.run (bindAll bs)).2
    rw [run_bindAll_perm hperm hnodup] at h
    exact h.toList_eq (represents_empty.run (bindAll bs')).2

end ExprForest.SymbolTable

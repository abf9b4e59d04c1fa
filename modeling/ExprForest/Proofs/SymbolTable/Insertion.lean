import ExprForest.Proofs.SymbolTable.FiniteMap

namespace ExprForest.SymbolTable

/-!
# The one place that an insertion changes

A search goes down a table with the place where it stands: the entries on its way with what hangs on their
other side.  Insertion writes at the place where the search ends and leaves the rest as it is.

* `Slot` — such a place, and `Slot.fill` — the table that has a given part there;
* `seek` — the place where the search for a name ends, and what stands there;
* `writeAt`, `insert_eq_writeAt_seek` — insertion is a search and one write;
* `Ordered` — at every entry, smaller names stand on the left and greater ones on the right;
* `Ascending.seek_fill` — in a search tree, an entry is where the search for its name ends;
* `insert_changes_one_place` — put together for all tables that operations lead to.
-/

open Operation (onTable run)
open Text.Utf8 (encode)

variable {α : Type} {t part left right : SymbolTable α} {k key : String} {v value : α}

/-! ### Places -/

/-- An entry without the part on one of its sides. -/
inductive Frame (α : Type) where
  /-- The part on the left is left out. -/
  | left (key : String) (value : α) (right : SymbolTable α)
  /-- The part on the right is left out. -/
  | right (left : SymbolTable α) (key : String) (value : α)

/-- The entry with a part in its place. -/
def Frame.around : Frame α → SymbolTable α → SymbolTable α
  | .left key value right, part => entry part key value right
  | .right left key value, part => entry left key value part

/-- A place in a table: the entries above it, the lowest one first. -/
abbrev Slot (α : Type) : Type :=
  List (Frame α)

/-- The table with a part in its place. -/
def Slot.fill (slot : Slot α) (part : SymbolTable α) : SymbolTable α :=
  slot.foldl (fun part frame => frame.around part) part

theorem Slot.fill_cons (frame : Frame α) (slot : Slot α) (part : SymbolTable α) :
    Slot.fill (frame :: slot) part = slot.fill (frame.around part) :=
  rfl

/-- A place with one more entry above all others. -/
theorem Slot.fill_concat (slot : Slot α) (frame : Frame α) (part : SymbolTable α) :
    Slot.fill (slot ++ [frame]) part = frame.around (slot.fill part) := by
  rw [fill, List.foldl_append]
  rfl

/-! ### Searching for a place -/

/-- Goes on with the search for a name from a place and what stands there. -/
def seekFrom (k : String) (slot : Slot α) : SymbolTable α → Slot α × SymbolTable α
  | empty => (slot, empty)
  | entry left key value right =>
    if k < key then left.seekFrom k (.left key value right :: slot)
    else if key < k then right.seekFrom k (.right left key value :: slot)
    else (slot, entry left key value right)

/-- The place where the search for a name ends, and what stands there: the entry of the name, or
    nothing. -/
def seek (k : String) (t : SymbolTable α) : Slot α × SymbolTable α :=
  t.seekFrom k []

section

variable (left right : SymbolTable α) (value : α) (slot : Slot α)

theorem seekFrom_left (h : k < key) : (entry left key value right).seekFrom k slot =
    left.seekFrom k (.left key value right :: slot) := by
  rw [seekFrom, if_pos h]

theorem seekFrom_right (h : key < k) : (entry left key value right).seekFrom k slot =
    right.seekFrom k (.right left key value :: slot) := by
  rw [seekFrom, if_neg h.asymm, if_pos h]

theorem seekFrom_root (key : String) : (entry left key value right).seekFrom key slot =
    (slot, entry left key value right) := by
  rw [seekFrom, if_neg (lt_irrefl key), if_neg (lt_irrefl key)]

end

/-- The value at the root. -/
def rootValue? : SymbolTable α → Option α
  | empty => none
  | entry _ _ value _ => some value

/-- What is found is the value that stands where the search ends. -/
theorem rootValue?_seekFrom (k : String) (slot : Slot α) (t : SymbolTable α) :
    (t.seekFrom k slot).2.rootValue? = t.find? k := by
  induction t generalizing slot with
  | empty => rfl
  | entry left key value right ihl ihr =>
    rcases lt_trichotomy k key with hlt | rfl | hgt
    · rw [find?_left _ _ _ hlt, seekFrom_left _ _ _ _ hlt, ihl]
    · rw [find?_root, seekFrom_root, rootValue?]
    · rw [find?_right _ _ _ hgt, seekFrom_right _ _ _ _ hgt, ihr]

/-! ### Writing at a place -/

/-- Binds a name at a place: overwrites the value of the entry that stands there, or puts an entry without
    children where nothing stands. -/
def writeAt (k : String) (v : α) : Slot α × SymbolTable α → Option α × SymbolTable α
  | (slot, empty) => (none, slot.fill (entry empty k v empty))
  | (slot, entry left key value right) => (some value, slot.fill (entry left key v right))

theorem writeAt_seekFrom (k : String) (v : α) (slot : Slot α) (t : SymbolTable α) :
    writeAt k v (t.seekFrom k slot) = ((t.insert k v).1, slot.fill (t.insert k v).2) := by
  -- the place grows by an entry where insertion goes down to one side of it
  induction t generalizing slot with
  | empty => rfl
  | entry left key value right ihl ihr =>
    rcases lt_trichotomy k key with hlt | rfl | hgt
    · rw [seekFrom_left _ _ _ _ hlt, ihl, insert_left _ _ _ hlt]
      rfl
    · rw [seekFrom_root, insert_root]
      rfl
    · rw [seekFrom_right _ _ _ _ hgt, ihr, insert_right _ _ _ hgt]
      rfl

/-- Insertion is a search and one write. -/
theorem insert_eq_writeAt_seek (k : String) (v : α) (t : SymbolTable α) :
    t.insert k v = writeAt k v (t.seek k) :=
  (writeAt_seekFrom k v [] t).symm

/-- What stands at the place where a search ends is a part of the table at this place. -/
theorem fill_seekFrom (k : String) (slot : Slot α) (t : SymbolTable α) :
    (t.seekFrom k slot).1.fill (t.seekFrom k slot).2 = slot.fill t := by
  induction t generalizing slot with
  | empty => rfl
  | entry left key value right ihl ihr =>
    rcases lt_trichotomy k key with hlt | rfl | hgt
    · rw [seekFrom_left _ _ _ _ hlt, ihl]
      rfl
    · rw [seekFrom_root]
    · rw [seekFrom_right _ _ _ _ hgt, ihr]
      rfl

/-- The name of the entry where a search ends. -/
theorem key_eq_of_seekFrom {slot slot' : Slot α}
    (h : t.seekFrom k slot = (slot', entry left key value right)) : key = k := by
  induction t generalizing slot with
  | empty => cases h
  | entry left' key' value' right' ihl ihr =>
    rcases lt_trichotomy k key' with hlt | rfl | hgt
    · rw [seekFrom_left _ _ _ _ hlt] at h
      exact ihl h
    · rw [seekFrom_root] at h
      cases h
      rfl
    · rw [seekFrom_right _ _ _ _ hgt] at h
      exact ihr h

/-! ### Order -/

/-- The names of a part are names of the table. -/
theorem Slot.mem_toList_fill {slot : Slot α} {b : String × α} (h : b ∈ part.toList) :
    b ∈ (slot.fill part).toList := by
  induction slot generalizing part with
  | nil => exact h
  | cons frame slot ih =>
    rw [fill_cons]
    apply ih
    cases frame with
    | left key value right =>
      rw [Frame.around, toList_entry]
      exact List.mem_append_left _ h
    | right left key value =>
      rw [Frame.around, toList_entry]
      exact List.mem_append_right _ (List.mem_cons_of_mem _ h)

/-- The parts of a search tree are search trees. -/
theorem Ascending.of_fill {slot : Slot α} (h : (slot.fill part).Ascending) : part.Ascending := by
  induction slot generalizing part with
  | nil => exact h
  | cons frame slot ih =>
    have hframe := ih h
    cases frame with
    | left key value right => exact (ascending_entry_iff.mp hframe).1.1
    | right left key value => exact (ascending_entry_iff.mp hframe).2.1

/-- At every entry, wherever it stands, the names on its left are smaller and those on its right greater, by
    their bytes. -/
def Ordered (t : SymbolTable α) : Prop :=
  ∀ (slot : Slot α) (left : SymbolTable α) (key : String) (value : α) (right : SymbolTable α),
    t = slot.fill (entry left key value right) →
      (∀ b ∈ left.toList, encode b.1.toList < encode key.toList) ∧
        ∀ b ∈ right.toList, encode key.toList < encode b.1.toList

theorem Ascending.ordered (h : t.Ascending) : t.Ordered := by
  rintro slot left key value right rfl
  obtain ⟨⟨-, hsmaller⟩, -, hgreater⟩ := ascending_entry_iff.mp h.of_fill
  exact ⟨fun b hb => Text.Utf8.lt_iff_encode_lt.mp (hsmaller b hb),
    fun b hb => Text.Utf8.lt_iff_encode_lt.mp (hgreater b hb)⟩

/-- In a search tree the search for a name that stands in a part leads to this part. -/
theorem Ascending.seekFrom_fill {slot : Slot α} (outer : Slot α) (h : (slot.fill part).Ascending)
    (hk : k ∈ part.toList.map Prod.fst) :
    (slot.fill part).seekFrom k outer = part.seekFrom k (slot ++ outer) := by
  -- on the entries above the part, the topmost one first, as the search meets them
  induction slot using List.reverseRecOn generalizing outer with
  | nil => rfl
  | append_singleton slot frame ih =>
    obtain ⟨b, hb, rfl⟩ := List.mem_map.mp hk
    rw [Slot.fill_concat] at h ⊢
    rw [List.append_assoc, List.singleton_append]
    cases frame with
    | left key value right =>
      obtain ⟨⟨hinner, hsmaller⟩, -⟩ := ascending_entry_iff.mp h
      rw [Frame.around, seekFrom_left _ _ _ _ (hsmaller b (Slot.mem_toList_fill hb)), ih _ hinner]
    | right left key value =>
      obtain ⟨-, hinner, hgreater⟩ := ascending_entry_iff.mp h
      rw [Frame.around, seekFrom_right _ _ _ _ (hgreater b (Slot.mem_toList_fill hb)), ih _ hinner]

/-- In a search tree an entry stands where the search for its name ends. -/
theorem Ascending.seek_fill {slot : Slot α} (h : (slot.fill (entry left k value right)).Ascending) :
    (slot.fill (entry left k value right)).seek k = (slot, entry left k value right) := by
  have hk : k ∈ (entry left k value right).toList.map Prod.fst := by simp
  rw [seek, h.seekFrom_fill [] hk, List.append_nil, seekFrom_root]

/-! ### Insertion -/

/-- What operations make of the empty table is a search tree. -/
theorem ascending_run (ops : List (Operation α)) : (run onTable ops empty).2.Ascending :=
  (represents_empty.run ops).2.ascending

/-- **One place.**  Insertion into a table that operations lead to changes the place where the search for the
    name ends, and nothing else.  If an entry of the name stands anywhere, it is found there; its value is
    given back and overwritten.  Otherwise nothing stands where the search ends, and an entry without children
    is put there.  What comes out is ordered again. -/
theorem insert_changes_one_place (ops : List (Operation α)) (k : String) (v : α) :
    let t := (run onTable ops empty).2
    (∀ (slot : Slot α) (left : SymbolTable α) (value : α) (right : SymbolTable α),
      t = slot.fill (entry left k value right) →
        t.seek k = (slot, entry left k value right) ∧ t.find? k = some value ∧
          t.insert k v = (some value, slot.fill (entry left k v right))) ∧
      ((¬∃ (slot : Slot α) (left : SymbolTable α) (value : α) (right : SymbolTable α),
          t = slot.fill (entry left k value right)) →
        ∃ slot : Slot α, t.seek k = (slot, empty) ∧ t = slot.fill empty ∧ t.find? k = none ∧
          t.insert k v = (none, slot.fill (entry empty k v empty))) ∧
      (t.insert k v).2.Ordered := by
  intro t
  have hascending : t.Ascending := ascending_run ops
  refine ⟨?_, ?_, (hascending.insert k v).ordered⟩
  · intro slot left value right ht
    have hseek : t.seek k = (slot, entry left k value right) := by
      rw [ht] at hascending ⊢
      exact hascending.seek_fill
    refine ⟨hseek, ?_, ?_⟩
    · rw [← rootValue?_seekFrom k [] t, ← seek, hseek, rootValue?]
    · rw [insert_eq_writeAt_seek, hseek, writeAt]
  · intro habsent
    have hfill := fill_seekFrom k [] t
    rw [← seek] at hfill
    rcases hseek : t.seek k with ⟨slot, part⟩
    rw [hseek] at hfill
    cases part with
    | empty =>
      refine ⟨slot, rfl, hfill.symm, ?_, ?_⟩
      · rw [← rootValue?_seekFrom k [] t, ← seek, hseek, rootValue?]
      · rw [insert_eq_writeAt_seek, hseek, writeAt]
    | entry left key value right =>
      -- the search would have ended at an entry of the name
      obtain rfl := key_eq_of_seekFrom hseek
      exact absurd ⟨slot, left, value, right, hfill.symm⟩ habsent

end ExprForest.SymbolTable

import ExprForest.Proofs.Json.ReadBack
import ExprForest.Proofs.Json.Strings

namespace ExprForest.Json

/-!
# Objects are read back

What is read of the compact text of an object, from what is read of the texts of its members.

* `toList_compact_object`, `toList_compact_array` — the compact texts of objects and arrays, part by part;
* `Value.ReadsAs`, `MembersReadAs` — what is read of the text of a value, and of those of some members;
* `MembersReadAs.run` — readers that read such members one after another;
* `Value.readsAs_string`, `Number.ReadsBack.exists_readsAs`, `MembersReadAs.readsAs_object` — the values of
  which the texts of trees are made.
-/

open Reader (Yields MembersRun comma value)

variable {σ : Type} {depth : Nat} {x : Float}

/-! ### The texts of objects and arrays -/

/-- The text of the members of an object.  The first of them stands behind a comma too, unless it is the
    first of the object. -/
def membersText (first : Bool) : List (String × Value) → List Char
  | [] => []
  | (name, v) :: ms =>
    comma first ++ '"' :: (name.toList.flatMap Text.jsonEscaped ++
      '"' :: ':' :: (v.compact.toList ++ membersText false ms))

/-- The text of the items of an array. -/
def itemsText (first : Bool) : List Value → List Char
  | [] => []
  | v :: vs => comma first ++ (v.compact.toList ++ itemsText false vs)

theorem toList_compactMembers (ms : List (String × Value)) :
    (Value.compactMembers ms).toList = membersText false ms := by
  induction ms with
  | nil => rfl
  | cons m ms ih =>
    obtain ⟨name, v⟩ := m
    rw [Value.compactMembers, String.toList_append, ih]
    simp [Text.toList_jsonQuoted, membersText, comma]

theorem toList_compactItems (vs : List Value) :
    (Value.compactItems vs).toList = itemsText false vs := by
  induction vs with
  | nil => rfl
  | cons v vs ih =>
    rw [Value.compactItems, String.toList_append, ih]
    simp [itemsText, comma]

theorem toList_compact_object (ms : List (String × Value)) :
    (Value.object ms).compact.toList = '\x7b' :: (membersText true ms ++ ['\x7d']) := by
  cases ms with
  | nil => simp [Value.compact, Value.leafText, membersText]
  | cons m ms =>
    obtain ⟨name, v⟩ := m
    rw [Value.compact]
    simp [Text.toList_jsonQuoted, toList_compactMembers, membersText, comma]

theorem toList_compact_array (vs : List Value) :
    (Value.array vs).compact.toList = '[' :: (itemsText true vs ++ [']']) := by
  cases vs with
  | nil => simp [Value.compact, Value.leafText, itemsText]
  | cons v vs =>
    rw [Value.compact]
    simp [toList_compactItems, itemsText, comma]

theorem toList_compact_string (s : String) :
    (Value.string s).compact.toList = '"' :: (s.toList.flatMap Text.jsonEscaped ++ ['"']) := by
  simp [Value.compact, Value.leafText, Text.toList_jsonQuoted]

/-! ### What is read of texts -/

/-- What is read of the text of a value, with brackets that nest at most `depth` deep: a value, or nothing
    at all. -/
def Value.ReadsAs (depth : Nat) (v : Value) (o : Option Value) : Prop :=
  ∀ more, Numeral.Ends more →
    Yields (value depth) (v.compact.toList ++ more) (o.map fun w => (w, more))

/-- What is read of the texts of some members: members of the same names, unless one of them is not
    read. -/
inductive MembersReadAs (depth : Nat) :
    List (String × Value) → Option (List (String × Value)) → Prop where
  | nil :
      MembersReadAs depth [] (some [])
  | refused {name : String} {v : Value} {ms : List (String × Value)} :
      v.ReadsAs depth none → MembersReadAs depth ((name, v) :: ms) none
  | cons {name : String} {v w : Value} {ms : List (String × Value)}
      {o : Option (List (String × Value))} :
      v.ReadsAs depth (some w) → MembersReadAs depth ms o →
      MembersReadAs depth ((name, v) :: ms) (o.map fun ws => (name, w) :: ws)

/-- The text behind a member does not go on with a number. -/
theorem ends_membersText (ms : List (String × Value)) (more : List Char) :
    Numeral.Ends (membersText false ms ++ '\x7d' :: more) := by
  cases ms with
  | nil =>
    rintro _ _ ⟨⟩
    decide
  | cons m ms =>
    rintro _ _ ⟨⟩
    decide

/-- **Members.**  A reader of members that reads each value behind a colon, and keeps it in its state with
    its name, reads members as their texts are read. -/
theorem MembersReadAs.run {ms : List (String × Value)} {o : Option (List (String × Value))}
    (h : MembersReadAs depth ms o) (member : σ → String → Reader σ)
    (state : List (String × Value) → σ)
    (hmember : ∀ m ∈ ms, ∀ earlier text o, Yields (value depth) text o →
      Yields (member (state earlier) m.1) (':' :: text)
        (o.map fun y => (state ((m.1, y.1) :: earlier), y.2)))
    (first : Bool) (earlier : List (String × Value)) (more : List Char) :
    MembersRun member first (state earlier) (membersText first ms ++ '\x7d' :: more)
      (o.map fun ws => (state (ws.reverse ++ earlier), '\x7d' :: more)) := by
  induction h generalizing first earlier with
  | nil => exact .done
  | @refused name v ms hv =>
    have hvalue := hmember _ List.mem_cons_self earlier _ _ (hv _ (ends_membersText ms more))
    simpa [membersText] using MembersRun.refused (Literal.yields_read name _) hvalue
  | @cons name v w ms o hv _ ih =>
    have hvalue := hmember _ List.mem_cons_self earlier _ _ (hv _ (ends_membersText ms more))
    have hlater := ih (fun m hm => hmember m (List.mem_cons_of_mem _ hm)) false ((name, w) :: earlier)
    have hrun : MembersRun member first _ _ _ :=
      .next (Literal.yields_read name _) hvalue (by simp; omega) hlater
    cases o <;> simpa [membersText] using hrun

/-! ### The values of trees -/

theorem Value.readsAs_string (depth : Nat) (s : String) :
    (Value.string s).ReadsAs depth (some (.string s)) := by
  intro more _
  have htext : (Value.string s).compact.toList ++ more =
      '"' :: (s.toList.flatMap Text.jsonEscaped ++ '"' :: more) := by
    simp [toList_compact_string]
  have hread : Yields (Reader.scalar '"') ('"' :: (s.toList.flatMap Text.jsonEscaped ++ '"' :: more))
      (some (.string s, more)) := ((Literal.yields_read s more).map).dropped
  rw [htext]
  exact hread.of_scalar depth rfl (by decide) (by decide)

/-- A number that is not finite is written as `null`. -/
theorem Value.readsAs_number_lost (depth : Nat) (hx : x.isFinite = false) :
    (Value.number (.float x)).ReadsAs depth (some .null) := by
  intro more _
  have htext : (Value.number (.float x)).compact.toList ++ more = 'n' :: 'u' :: 'l' :: 'l' :: more := by
    simp [Value.compact, Value.leafText, Number.text, hx]
  have hread : Yields (Reader.scalar 'n') ('n' :: 'u' :: 'l' :: 'l' :: more) (some (.null, more)) :=
    .done fun line column => ⟨line, column + 4, rfl⟩
  rw [htext]
  exact hread.of_scalar depth rfl (by decide) (by decide)

/-- A number that is read back from its text is one among other values too. -/
theorem Number.ReadsBack.exists_readsAs (h : Number.ReadsBack x) (hx : x.isFinite = true) :
    ∃ n : Number, n.toFloat = x ∧
      ∀ depth, (Value.number (.float x)).ReadsAs depth (some (.number n)) := by
  obtain ⟨n, hn, hread⟩ := h.exists_yields
  have htext : (Value.number (.float x)).compact = Decimal.Format.json.text x := by
    simp [Value.compact, Value.leafText, Number.text, hx]
  refine ⟨n, hn, fun depth more hmore => ?_⟩
  rw [htext]
  exact hread depth more hmore

/-- **Objects.**  An object is read where its brackets may nest one deeper than those of its members. -/
theorem MembersReadAs.readsAs_object {ms : List (String × Value)}
    {o : Option (List (String × Value))} (h : MembersReadAs depth ms o) :
    (Value.object ms).ReadsAs (depth + 1) (o.map .object) := by
  intro more _
  let member (earlier : List (String × Value)) (name : String) : Reader (List (String × Value)) := do
    Reader.colon
    return (name, ← value depth) :: earlier
  have hrun : MembersRun member true [] _ _ :=
    h.run member id (fun _ _ _ _ _ hv => Reader.yields_colon.bind hv.map) true [] more
  have htext : '\x7b' :: (membersText true ms ++ ['\x7d']) ++ more =
      '\x7b' :: (membersText true ms ++ '\x7d' :: more) := by simp
  rw [toList_compact_object, htext, value]
  refine Yields.peeked (Yields.dropped ?_) rfl
  cases o with
  | none => exact (Yields.enclosed_none hrun.yields).bind_none
  | some ws =>
    have hwhole := (Yields.enclosed (b := .curly) hrun.yields).map (f := fun ws => Value.object ws.reverse)
    simpa using hwhole

/-- No object is read where no bracket may stand. -/
theorem Value.readsAs_object_zero (ms : List (String × Value)) :
    (Value.object ms).ReadsAs 0 none := by
  intro more _
  rw [toList_compact_object, value]
  exact Yields.peeked (Reader.yields_fault _ _) rfl

end ExprForest.Json

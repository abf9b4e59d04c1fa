import ExprForest.Proofs.Json.Grammar
import ExprForest.Proofs.Json.Steps

namespace ExprForest.Json.Reader

/-!
# Readers that decide

Where a text is built by the grammar, a reader reads of it what it should, and nothing if it should not: it
decides a property of values.

* `Decides` — a reader reads the value that has a property, and nothing if no value has it;
* `Decides.bind`, `Decides.lift` — decisions one after another;
* `Decides.readAll_eq_ok_iff` — decisions about whole texts;
* `exists_skipBlanks`, `Yields.behind_gap` — blanks change nothing;
* `Decides.nextName` — the name of a member is decided wherever that of a string is.
-/

open Grammar (Gap)

variable {α β : Type} {r : Reader α} {text mid rest : List Char} {x y : α} {p : α → Prop}

/-- What a reader makes of a text depends on a property of values: a value that has it is read up to `rest`,
    and if there is none, nothing is read. -/
structure Decides (r : Reader α) (text rest : List Char) (p : α → Prop) : Prop where
  done : ∀ {x}, p x → Yields r text (some (x, rest))
  refused : (∀ x, ¬p x) → Yields r text none

/-- A text of which a reader reads a value is not one of which it reads another. -/
theorem Yields.eq_of_some (hx : Yields r text (some (x, mid))) (hy : Yields r text (some (y, rest))) :
    x = y := by
  cases hx with
  | done hx =>
    cases hy with
    | done hy =>
      obtain ⟨line, column, hx⟩ := hx 1 0
      obtain ⟨line', column', hy⟩ := hy 1 0
      exact (Result.done.inj (hx.symm.trans hy)).1

namespace Decides

theorem of_yields (h : Yields r text (some (x, rest))) : Decides r text rest (· = x) where
  done := by
    rintro _ rfl
    exact h
  refused hnone := absurd rfl (hnone x)

theorem of_refused (h : Yields r text none) (hp : ∀ x, ¬p x) : Decides r text rest p where
  done hx := absurd hx (hp _)
  refused _ := h

theorem congr {q : α → Prop} (h : Decides r text rest p) (hpq : ∀ x, p x ↔ q x) :
    Decides r text rest q where
  done hx := h.done ((hpq _).mpr hx)
  refused hnone := h.refused fun x hx => hnone x ((hpq x).mp hx)

/-- A reader that makes of a text what another one makes of the text further on. -/
theorem lift {r' : Reader α} {text' : List Char} (h : Decides r text rest p)
    (hlift : ∀ o, Yields r text o → Yields r' text' o) : Decides r' text' rest p where
  done hx := hlift _ (h.done hx)
  refused hnone := hlift _ (h.refused hnone)

/-- **One decision after another.**  What is decided of the second value may depend on the first. -/
theorem bind {f : α → Reader β} {q : α → β → Prop} (h : Decides r text mid p)
    (hf : ∀ x, p x → Decides (f x) mid rest (q x)) :
    Decides (r >>= f) text rest fun y => ∃ x, p x ∧ q x y where
  done := by
    rintro y ⟨x, hx, hy⟩
    exact (h.done hx).bind ((hf x hx).done hy)
  refused hnone := by
    by_cases hp : ∃ x, p x
    · obtain ⟨x, hx⟩ := hp
      exact (h.done hx).bind ((hf x hx).refused fun y hy => hnone y ⟨x, hx, hy⟩)
    · exact (h.refused (not_exists.mp hp)).bind_none

/-- A value that is decided is looked at further. -/
theorem map {f : α → β} (h : Decides r text rest p) :
    Decides (do return f (← r)) text rest fun y => ∃ x, p x ∧ y = f x :=
  h.bind fun _ _ => of_yields (yields_pure _ _)

/-- What stands between two brackets is decided inside of them. -/
theorem enclosed {b : Bracket} (h : Decides r text (b.closing :: rest) p) :
    Decides (Reader.enclosed b r) text rest p where
  done hx := (h.done hx).enclosed
  refused hnone := (h.refused hnone).enclosed_none

end Decides

/-! ### Blanks -/

/-- Blanks are passed over together. -/
theorem exists_skipBlanks (gap : Gap) (rest : List Char) (line column : Nat) : ∃ line' column',
    Cursor.skipBlanks ⟨gap.chars ++ rest, line, column⟩ = Cursor.skipBlanks ⟨rest, line', column'⟩ := by
  obtain ⟨cs, hcs⟩ := gap
  simp only
  induction cs generalizing line column with
  | nil => exact ⟨line, column, rfl⟩
  | cons ch cs ih =>
    obtain ⟨hch, hcs⟩ := List.forall_mem_cons.mp hcs
    by_cases hfeed : ch = '\n'
    · obtain ⟨line', column', h⟩ := ih (line + 1) 0 hcs
      refine ⟨line', column', h ▸ ?_⟩
      rw [List.cons_append, Cursor.skipBlanks, Cursor.skipBlanksFrom, if_pos hfeed]
      rfl
    · obtain ⟨line', column', h⟩ := ih line (column + 1) hcs
      refine ⟨line', column', h ▸ ?_⟩
      rw [List.cons_append, Cursor.skipBlanks, Cursor.skipBlanksFrom, if_neg hfeed, if_pos hch]
      rfl

/-- Blanks before the next character are passed over. -/
theorem Yields.behind_gap {f : Option Char → Reader β} {o : Option (β × List Char)}
    (h : Yields (peek >>= f) text o) (gap : Gap) : Yields (peek >>= f) (gap.chars ++ text) o := by
  refine h.of_eq fun line column => ?_
  obtain ⟨line', column', hskip⟩ := exists_skipBlanks gap text line column
  refine ⟨line', column', ?_⟩
  show Reader.bind peek f _ = Reader.bind peek f _
  rw [Reader.bind, Reader.bind, peek, peek, hskip]

/-- A whole text with blanks behind its value. -/
theorem Yields.readAll_of_gap {gap : Gap} {text : String}
    (h : Yields r text.toList (some (x, gap.chars))) : Reader.readAll r text = .ok x := by
  cases h with
  | done h =>
    obtain ⟨line, column, hr⟩ := h 1 0
    obtain ⟨line', column', hskip⟩ := exists_skipBlanks gap [] line column
    rw [List.append_nil] at hskip
    rw [Reader.readAll, Cursor.start, hr]
    simp only [hskip]
    rfl

/-- **Whole texts.**  A whole text is read as a value exactly if the value has the property. -/
theorem Decides.readAll_eq_ok_iff {gap : Gap} {text : String} (h : Decides r text.toList gap.chars p)
    (x : α) : Reader.readAll r text = .ok x ↔ p x := by
  constructor
  · intro hread
    by_cases hp : ∃ y, p y
    · obtain ⟨y, hy⟩ := hp
      have hread' := (h.done hy).readAll_of_gap
      rw [hread] at hread'
      rwa [Except.ok.inj hread']
    · exact absurd hread (h.refused (not_exists.mp hp)).readAll_ne
  · exact fun hx => (h.done hx).readAll_of_gap

/-! ### Members -/

theorem yields_colon_behind (gap : Gap) (rest : List Char) :
    Yields colon (gap.chars ++ ':' :: rest) (some ((), rest)) :=
  yields_colon.behind_gap gap

theorem yields_nextName_end (first : Bool) (gap : Gap) (rest : List Char) :
    Yields (nextName first) (gap.chars ++ '\x7d' :: rest) (some (none, '\x7d' :: rest)) :=
  (yields_nextName_closing first).behind_gap gap

/-- The name of the next member, behind the comma if there is one. -/
theorem Decides.nextName {p : String → Prop} (h : Decides Literal.read text rest p) (first : Bool)
    (behind before : Gap) :
    Decides (nextName first) (behind.chars ++ (comma first ++ (before.chars ++ '"' :: text))) rest
      fun name? => ∃ name, p name ∧ name? = some name := by
  have hname : Decides (do drop; return some (← Literal.read) : Reader (Option String)) ('"' :: text)
      rest fun name? => ∃ name, p name ∧ name? = some name :=
    h.map.lift fun _ ho => ho.dropped
  refine hname.lift fun o ho => ?_
  cases first with
  | true =>
    have hpeek : Yields (Reader.nextName true) ('"' :: text) o := ho.peeked rfl
    exact (hpeek.behind_gap before).behind_gap behind
  | false =>
    have hpeek : Yields (Reader.nextName false) (',' :: (before.chars ++ '"' :: text)) o :=
      Yields.peeked (Yields.dropped (Yields.behind_gap (Yields.peeked ho rfl) before)) rfl
    exact hpeek.behind_gap behind

end ExprForest.Json.Reader

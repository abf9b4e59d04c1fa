import ExprForest.Json.Read

namespace ExprForest.Json.Reader

/-!
# What readers make of texts

A reader goes over a text from wherever the text stands.  Positions only matter for the reports of
failures, so what is kept of a reading is the value and the text behind it.

* `Yields` — a reader reads a value and leaves a text, or it does not read at all;
* `Yields.bind`, `Yields.enclosed`, `yields_peek` and their like — one lemma for each way to put readers
  together;
* `MembersRun`, `ItemsRun` — the members of an object and the items of an array, one after another;
* `MembersRun.yields`, `ItemsRun.yields` — these are what is read of them.
-/

variable {α β σ : Type} {r : Reader α} {text mid rest : List Char} {x : α} {ch : Char}

/-- What a reader makes of a text: a value and what is left, or nothing, whatever the failure. -/
inductive Yields (r : Reader α) (text : List Char) : Option (α × List Char) → Prop where
  | done {x : α} {rest : List Char} :
      (∀ line column, ∃ line' column', r ⟨text, line, column⟩ = .done x ⟨rest, line', column'⟩) →
      Yields r text (some (x, rest))
  | refused :
      (∀ line column x c, r ⟨text, line, column⟩ ≠ .done x c) →
      Yields r text none

/-! ### One reader after another -/

/-- A reader that goes on as another one does further on. -/
theorem Yields.of_eq {r' : Reader α} {text' : List Char} {o : Option (α × List Char)}
    (h : Yields r' text' o)
    (heq : ∀ line column, ∃ line' column',
      r ⟨text, line, column⟩ = r' ⟨text', line', column'⟩) : Yields r text o := by
  cases h with
  | done h =>
    refine .done fun line column => ?_
    obtain ⟨line', column', hr⟩ := heq line column
    rw [hr]
    exact h line' column'
  | refused h =>
    refine .refused fun line column => ?_
    obtain ⟨line', column', hr⟩ := heq line column
    rw [hr]
    exact h line' column'

theorem Yields.bind {f : α → Reader β} {o : Option (β × List Char)}
    (h : Yields r text (some (x, mid))) (h' : Yields (f x) mid o) : Yields (r >>= f) text o := by
  cases h with
  | done h =>
    refine h'.of_eq fun line column => ?_
    obtain ⟨line', column', hr⟩ := h line column
    refine ⟨line', column', ?_⟩
    show Reader.bind r f _ = _
    rw [Reader.bind, hr]

/-- A value that is read by one reader after another. -/
theorem bind_eq_done {f : α → Reader β} {c c'' : Cursor} {y : β} (h : (r >>= f) c = .done y c'') :
    ∃ x c', r c = .done x c' ∧ f x c' = .done y c'' := by
  change Reader.bind r f c = _ at h
  rw [Reader.bind] at h
  split at h
  · rename_i x c' hr
    exact ⟨x, c', hr, h⟩
  · cases h
  · cases h

theorem Yields.bind_none {f : α → Reader β} (h : Yields r text none) : Yields (r >>= f) text none := by
  cases h with
  | refused h =>
    refine .refused fun line column y c hy => ?_
    obtain ⟨x, c', hr, -⟩ := bind_eq_done hy
    exact h line column x c' hr

theorem yields_pure (x : α) (text : List Char) : Yields (pure x) text (some (x, text)) :=
  .done fun line column => ⟨line, column, rfl⟩

/-- A value that a reader gives is looked at further. -/
theorem Yields.map {f : α → β} {o : Option (α × List Char)} (h : Yields r text o) :
    Yields (do return f (← r)) text (o.map fun y => (f y.1, y.2)) := by
  cases o with
  | none => exact h.bind_none
  | some y => exact h.bind (yields_pure _ _)

theorem yields_unfit (m : Mismatch) (text : List Char) : Yields (unfit (α := α) m) text none :=
  .refused fun _ _ _ _ h => by cases h

theorem yields_fault (f : Fault) (text : List Char) : Yields (fault (α := α) f) text none :=
  .refused fun _ _ _ _ h => by cases h

theorem Yields.settle {o : Option (α × List Char)} (h : Yields r text o) :
    Yields (Reader.settle r) text o := by
  cases h with
  | done h =>
    refine .done fun line column => ?_
    obtain ⟨line', column', hr⟩ := h line column
    refine ⟨line', column', ?_⟩
    rw [Reader.settle, hr]
  | refused h =>
    refine .refused fun line column y c hy => ?_
    rw [Reader.settle] at hy
    split at hy
    · cases hy
    · exact h line column y c hy

/-! ### Whole texts -/

/-- A whole text is read up to blanks at its end. -/
theorem exists_done_of_readAll {text : String} (h : readAll r text = .ok x) :
    ∃ c, r (.start text) = .done x c ∧ c.skipBlanks.rest = [] := by
  unfold readAll at h
  split at h
  · cases h
  · cases h
  · rename_i y c hdone
    dsimp only at h
    split at h
    · rename_i hend
      obtain rfl := Except.ok.inj h
      exact ⟨c, hdone, hend⟩
    · cases h

theorem Yields.readAll {text : String} (h : Yields r text.toList (some (x, []))) :
    Reader.readAll r text = .ok x := by
  cases h with
  | done h =>
    obtain ⟨line, column, hr⟩ := h 1 0
    rw [Reader.readAll, Cursor.start, hr]
    rfl

theorem Yields.readAll_ne {text : String} (h : Yields r text.toList none) :
    Reader.readAll r text ≠ .ok x := by
  intro hread
  obtain ⟨c, hdone, -⟩ := exists_done_of_readAll hread
  cases h with
  | refused h => exact h 1 0 x c hdone

/-- A whole text that gives back what was written, or nothing at all. -/
theorem Yields.readAll_eq_ok_iff {p : Prop} [Decidable p] {text : String}
    (h : Yields r text.toList (if p then some (x, []) else none)) (y : α) :
    Reader.readAll r text = .ok y ↔ y = x ∧ p := by
  by_cases hp : p
  · rw [if_pos hp] at h
    rw [h.readAll]
    constructor
    · intro heq
      exact ⟨(Except.ok.inj heq).symm, hp⟩
    · rintro ⟨rfl, -⟩
      rfl
  · rw [if_neg hp] at h
    exact ⟨fun heq => absurd heq h.readAll_ne, fun hand => absurd hand.2 hp⟩

/-! ### Characters -/

theorem skipBlanks_cons (hch : Cursor.isBlank ch = false) (line column : Nat) :
    Cursor.skipBlanks ⟨ch :: rest, line, column⟩ = ⟨ch :: rest, line, column⟩ := by
  have hfeed : ch ≠ '\n' := by
    rintro rfl
    cases hch
  rw [Cursor.skipBlanks, Cursor.skipBlanksFrom, if_neg hfeed, if_neg (by rw [hch]; decide)]

theorem yields_peek (hch : Cursor.isBlank ch = false) :
    Yields peek (ch :: rest) (some (some ch, ch :: rest)) := by
  refine .done fun line column => ⟨line, column, ?_⟩
  rw [peek, skipBlanks_cons hch]
  rfl

/-- What is read behind a look at the next character. -/
theorem Yields.peeked {f : Option Char → Reader β} {o : Option (β × List Char)}
    (h : Yields (f (some ch)) (ch :: rest) o) (hch : Cursor.isBlank ch = false) :
    Yields (peek >>= f) (ch :: rest) o :=
  (yields_peek hch).bind h

theorem exists_tail (ch : Char) (rest : List Char) (line column : Nat) :
    ∃ line' column', Cursor.tail ⟨ch :: rest, line, column⟩ = ⟨rest, line', column'⟩ := by
  by_cases hfeed : ch = '\n'
  · subst hfeed
    exact ⟨_, _, rfl⟩
  · refine ⟨line, column + ch.utf8Size, ?_⟩
    unfold Cursor.tail
    split <;> simp_all

theorem yields_drop : Yields drop (ch :: rest) (some ((), rest)) := by
  refine .done fun line column => ?_
  obtain ⟨line', column', htail⟩ := exists_tail ch rest line column
  exact ⟨line', column', by rw [drop, htail]⟩

/-- What is read behind the next character. -/
theorem Yields.dropped {f : Unit → Reader β} {o : Option (β × List Char)} (h : Yields (f ()) rest o) :
    Yields (drop >>= f) (ch :: rest) o :=
  yields_drop.bind h

/-! ### Brackets -/

theorem close_closing (b : Bracket) (rest : List Char) (line column : Nat) :
    b.close ⟨b.closing :: rest, line, column⟩ =
      (none, Cursor.tail ⟨b.closing :: rest, line, column⟩) := by
  have hblank : Cursor.isBlank b.closing = false := by cases b <;> rfl
  unfold Bracket.close
  simp only [skipBlanks_cons hblank, if_pos]

theorem Yields.enclosed {b : Bracket} (h : Yields r text (some (x, b.closing :: rest))) :
    Yields (Reader.enclosed b r) text (some (x, rest)) := by
  cases h with
  | done h =>
    refine .done fun line column => ?_
    obtain ⟨line', column', hr⟩ := h line column
    obtain ⟨line'', column'', htail⟩ := exists_tail b.closing rest line' column'
    refine ⟨line'', column'', ?_⟩
    simp only [Reader.enclosed, hr, close_closing, htail]

theorem Yields.enclosed_none {b : Bracket} (h : Yields r text none) :
    Yields (Reader.enclosed b r) text none := by
  cases h with
  | refused h =>
    refine .refused fun line column y c hy => ?_
    rw [Reader.enclosed] at hy
    split at hy
    · cases hy
    · cases hy
    · rename_i hr
      exact h line column _ _ hr

/-- One level deeper, where there is one. -/
theorem Yields.deeper {inner : Nat → Reader α} {depth : Nat} {o : Option (α × List Char)}
    (h : Yields (inner depth) rest o) : Yields (Reader.deeper (depth + 1) inner) (ch :: rest) o :=
  yields_drop.bind h

/-! ### Members -/

theorem yields_colon : Yields colon (':' :: rest) (some ((), rest)) := by
  unfold colon
  exact Yields.peeked yields_drop rfl

/-- The comma before a member or an item, unless it is the first one. -/
def comma (first : Bool) : List Char :=
  if first then [] else [',']

theorem yields_nextName {first : Bool} {name : String} (h : Yields Literal.read text (some (name, rest))) :
    Yields (nextName first) (comma first ++ '"' :: text) (some (some name, rest)) := by
  have hname : Yields (do drop; return some (← Literal.read)) ('"' :: text) (some (some name, rest)) :=
    (h.map).dropped
  cases first with
  | true => exact Yields.peeked hname rfl
  | false => exact Yields.peeked (Yields.dropped (Yields.peeked hname rfl)) rfl

theorem yields_nextName_closing (first : Bool) :
    Yields (nextName first) ('\x7d' :: rest) (some (none, '\x7d' :: rest)) :=
  Yields.peeked (yields_pure none _) rfl

/-- The members of an object as they are read one after another: up to the closing bracket, or up to a
    member that is not read.  No member gives text back. -/
inductive MembersRun (member : σ → String → Reader σ) :
    Bool → σ → List Char → Option (σ × List Char) → Prop where
  | done {first : Bool} {state : σ} {rest : List Char} :
      MembersRun member first state ('\x7d' :: rest) (some (state, '\x7d' :: rest))
  | refused {first : Bool} {state : σ} {name : String} {text mid : List Char} :
      Yields Literal.read text (some (name, mid)) → Yields (member state name) mid none →
      MembersRun member first state (comma first ++ '"' :: text) none
  | next {first : Bool} {state state' : σ} {name : String} {text mid rest : List Char}
      {o : Option (σ × List Char)} :
      Yields Literal.read text (some (name, mid)) →
      Yields (member state name) mid (some (state', rest)) → rest.length ≤ text.length →
      MembersRun member false state' rest o →
      MembersRun member first state (comma first ++ '"' :: text) o

theorem membersFrom_cons {member : σ → String → Reader σ} {state : σ} {first : Bool} {a : Char}
    {room : List Char} :
    membersFrom member state first (a :: room) =
      nextName first >>= fun name? => match name? with
        | none => pure state
        | some name => member state name >>= fun state => membersFrom member state false room := by
  funext c
  show _ = Reader.bind (nextName first) _ c
  unfold membersFrom Reader.bind
  cases nextName first c with
  | done name? c =>
    cases name? with
    | none => rfl
    | some name =>
      dsimp only
      show _ = Reader.bind (member state name) _ c
      unfold Reader.bind
      cases member state name c <;> rfl
  | _ => rfl

theorem MembersRun.yields_membersFrom {member : σ → String → Reader σ} {state : σ} {first : Bool}
    {room : List Char} {o : Option (σ × List Char)} (h : MembersRun member first state text o)
    (hroom : text.length < room.length) : Yields (membersFrom member state first room) text o := by
  induction h generalizing room with
  | done =>
    obtain ⟨a, room, rfl⟩ := List.exists_cons_of_length_pos (Nat.zero_lt_of_lt hroom)
    rw [membersFrom_cons]
    exact (yields_nextName_closing _).bind (yields_pure _ _)
  | refused hname hmember =>
    obtain ⟨a, room, rfl⟩ := List.exists_cons_of_length_pos (Nat.zero_lt_of_lt hroom)
    rw [membersFrom_cons]
    exact (yields_nextName hname).bind hmember.bind_none
  | next hname hmember hlength _ ih =>
    obtain ⟨a, room, rfl⟩ := List.exists_cons_of_length_pos (Nat.zero_lt_of_lt hroom)
    rw [membersFrom_cons]
    refine (yields_nextName hname).bind (hmember.bind (ih ?_))
    simp only [List.length_append, List.length_cons] at hroom
    omega

/-- What is read of the members of an object. -/
theorem MembersRun.yields {member : σ → String → Reader σ} {state : σ}
    {o : Option (σ × List Char)} (h : MembersRun member true state text o) :
    Yields (members member state) text o := by
  have hroom : text.length < (' ' :: text).length := Nat.lt_succ_self _
  exact (h.yields_membersFrom hroom).of_eq fun line column => ⟨line, column, rfl⟩

/-! ### Items -/

/-- The items of an array as they are read one after another, behind those already read, which are listed
    last first.  No item begins like a blank or a closing bracket. -/
inductive ItemsRun (item : Reader α) :
    Bool → List α → List Char → Option (List α × List Char) → Prop where
  | done {first : Bool} {read : List α} {rest : List Char} :
      ItemsRun item first read (']' :: rest) (some (read.reverse, ']' :: rest))
  | refused {first : Bool} {read : List α} {ch : Char} {text : List Char} :
      Cursor.isBlank ch = false → ch ≠ ']' → Yields item (ch :: text) none →
      ItemsRun item first read (comma first ++ ch :: text) none
  | next {first : Bool} {read : List α} {ch : Char} {text rest : List Char} {x : α}
      {o : Option (List α × List Char)} :
      Cursor.isBlank ch = false → ch ≠ ']' → Yields item (ch :: text) (some (x, rest)) →
      rest.length ≤ text.length → ItemsRun item false (x :: read) rest o →
      ItemsRun item first read (comma first ++ ch :: text) o

theorem yields_another {first : Bool} (hblank : Cursor.isBlank ch = false) (hch : ch ≠ ']') :
    Yields (another first) (comma first ++ ch :: text) (some (true, ch :: text)) := by
  cases first with
  | true =>
    refine Yields.peeked ?_ hblank
    simp only [if_neg hch]
    exact yields_pure true _
  | false =>
    refine Yields.peeked (Yields.dropped (Yields.peeked ?_ hblank)) rfl
    simp only [if_neg hch]
    exact yields_pure true _

theorem yields_another_closing (first : Bool) :
    Yields (another first) (']' :: rest) (some (false, ']' :: rest)) :=
  Yields.peeked (yields_pure false _) rfl

theorem itemsFrom_cons {item : Reader α} {read : List α} {first : Bool} {a : Char}
    {room : List Char} :
    itemsFrom item read first (a :: room) =
      another first >>= fun more =>
        if more then item >>= fun x => itemsFrom item (x :: read) false room
        else pure read.reverse := by
  funext c
  show _ = Reader.bind (another first) _ c
  unfold itemsFrom Reader.bind
  cases another first c with
  | done more c =>
    cases more with
    | false => rfl
    | true =>
      dsimp only
      show _ = Reader.bind item _ c
      unfold Reader.bind
      cases item c <;> rfl
  | _ => rfl

theorem ItemsRun.yields_itemsFrom {item : Reader α} {read : List α} {first : Bool} {room : List Char}
    {o : Option (List α × List Char)} (h : ItemsRun item first read text o)
    (hroom : text.length < room.length) : Yields (itemsFrom item read first room) text o := by
  induction h generalizing room with
  | done =>
    obtain ⟨a, room, rfl⟩ := List.exists_cons_of_length_pos (Nat.zero_lt_of_lt hroom)
    rw [itemsFrom_cons]
    exact (yields_another_closing _).bind (yields_pure _ _)
  | refused hblank hch hitem =>
    obtain ⟨a, room, rfl⟩ := List.exists_cons_of_length_pos (Nat.zero_lt_of_lt hroom)
    rw [itemsFrom_cons]
    exact (yields_another hblank hch).bind hitem.bind_none
  | next hblank hch hitem hlength _ ih =>
    obtain ⟨a, room, rfl⟩ := List.exists_cons_of_length_pos (Nat.zero_lt_of_lt hroom)
    rw [itemsFrom_cons]
    refine (yields_another hblank hch).bind (hitem.bind (ih ?_))
    simp only [List.length_append, List.length_cons] at hroom
    omega

/-- What is read of the items of an array. -/
theorem ItemsRun.yields {item : Reader α} {o : Option (List α × List Char)}
    (h : ItemsRun item true [] text o) : Yields (items item true) text o := by
  have hroom : text.length < (' ' :: text).length := Nat.lt_succ_self _
  exact (h.yields_itemsFrom hroom).of_eq fun line column => ⟨line, column, rfl⟩

end ExprForest.Json.Reader

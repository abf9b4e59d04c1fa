import ExprForest.Json.Record
import ExprForest.Proofs.Json.Numerals
import ExprForest.Proofs.Json.Spelling

namespace ExprForest.Json

/-!
# Members are read one after another

What is read of an object, from what is decided of each of its members.

* `Grammar.joined`, `Grammar.joined_eq_intercalate` — members with commas before them, or between them;
* `Chain` — what each member of a list makes of what the ones before have made;
* `Reader.decides_membersFrom` — the members of an object are read in a chain;
* `Record.decides_read` — and a record is completed from what they make.
-/

open Grammar (Gap Member)
open Reader (Yields Decides comma)

variable {ι σ α : Type} {ms : List Member}

/-! ### The text of the members -/

namespace Grammar

/-- The text of some members of an object.  The first of them stands behind a comma too, unless it is the first
    of the object. -/
def joined (first : Bool) : List Member → List Char
  | [] => []
  | m :: ms => comma first ++ (m.text ++ joined false ms)

theorem joined_eq_intercalate (ms : List Member) :
    joined true ms = [','].intercalate (ms.map Member.text) := by
  cases ms with
  | nil => rfl
  | cons m ms =>
    induction ms generalizing m with
    | nil => simp [joined, comma, List.intercalate]
    | cons m' ms ih =>
      have h := ih m'
      simp only [joined, comma, List.map_cons, List.intercalate] at h ⊢
      simp [← h]

/-- The text behind a member does not go on with a number. -/
theorem ends_joined (gap : Gap) (ms : List Member) (rest : List Char) :
    Numeral.Ends (gap.chars ++ (joined false ms ++ '\x7d' :: rest)) := by
  obtain ⟨cs, hcs⟩ := gap
  cases cs with
  | nil =>
    cases ms with
    | nil =>
      rintro _ _ ⟨⟩
      decide
    | cons m ms =>
      rintro _ _ ⟨⟩
      decide
  | cons ch cs =>
    rintro _ _ ⟨⟩
    have hch := hcs ch List.mem_cons_self
    simp only [Cursor.isBlank, Bool.or_eq_true, beq_iff_eq] at hch
    rcases hch with ((rfl | rfl) | rfl) | rfl <;> decide

/-- Every member takes up text. -/
theorem length_le_joined (first : Bool) (ms : List Member) : ms.length ≤ (joined first ms).length := by
  induction ms generalizing first with
  | nil => exact Nat.le_refl 0
  | cons m ms ih =>
    have h := ih false
    simp only [joined, Member.text, List.length_append, List.length_cons]
    omega

end Grammar

/-! ### Members in a row -/

/-- What each member of a list makes of what the ones before have made. -/
inductive Chain (adds : ι → σ → σ → Prop) : List ι → σ → σ → Prop where
  | nil {s : σ} :
      Chain adds [] s s
  | cons {i : ι} {is : List ι} {s s' s'' : σ} :
      adds i s s' → Chain adds is s' s'' →
      Chain adds (i :: is) s s''

namespace Reader

/-- **Members.**  Where it is decided what a member makes of the state before it, it is decided what all
    members of an object make of it. -/
theorem decides_membersFrom {member : σ → String → Reader σ} {adds : Member → σ → σ → Prop}
    (hnamed : ∀ m ∈ ms, ∀ s s', adds m s s' → ∃ name, m.Named name)
    (hmember : ∀ m ∈ ms, ∀ s name more, m.Named name → Numeral.Ends (m.item.behind.chars ++ more) →
      Decides (member s name) (m.behind.chars ++ ':' :: (m.item.text ++ more))
        (m.item.behind.chars ++ more) (adds m s))
    (s : σ) (first : Bool) (gap : Gap) (rest room : List Char) (hroom : ms.length < room.length) :
    Decides (membersFrom member s first room) (gap.chars ++ (Grammar.joined first ms ++ '\x7d' :: rest))
      ('\x7d' :: rest) (Chain adds ms s) := by
  induction ms generalizing s first gap room with
  | nil =>
    obtain ⟨a, room, rfl⟩ := List.exists_cons_of_length_pos (Nat.zero_lt_of_lt hroom)
    have hend : Yields (membersFrom member s first (a :: room)) (gap.chars ++ '\x7d' :: rest)
        (some (s, '\x7d' :: rest)) := by
      rw [membersFrom_cons]
      exact (yields_nextName_end first gap rest).bind (yields_pure s _)
    refine (Decides.of_yields hend).congr fun s' => ⟨?_, ?_⟩
    · rintro rfl
      exact .nil
    · rintro ⟨⟩
      rfl
  | cons m ms ih =>
    obtain ⟨hnamed_m, hnamed⟩ := List.forall_mem_cons.mp hnamed
    obtain ⟨hmember_m, hmember⟩ := List.forall_mem_cons.mp hmember
    obtain ⟨a, room, rfl⟩ := List.exists_cons_of_length_pos (Nat.zero_lt_of_lt hroom)
    rw [membersFrom_cons]
    have htext : gap.chars ++ (Grammar.joined first (m :: ms) ++ '\x7d' :: rest) =
        gap.chars ++ (comma first ++ (m.before.chars ++ '"' :: (m.name ++ '"' ::
          (m.behind.chars ++ ':' :: (m.item.text ++ (Grammar.joined false ms ++ '\x7d' :: rest)))))) := by
      simp [Grammar.joined, Member.text]
    rw [htext]
    have hname := (Literal.decides_read m.isBody (m.behind.chars ++ ':' :: (m.item.text ++
      (Grammar.joined false ms ++ '\x7d' :: rest)))).nextName first gap m.before
    have hlater : ∀ s', Decides (membersFrom member s' false room)
        (m.item.behind.chars ++ (Grammar.joined false ms ++ '\x7d' :: rest)) ('\x7d' :: rest)
        (Chain adds ms s') :=
      fun s' => ih hnamed hmember s' false m.item.behind room (Nat.lt_of_succ_lt_succ hroom)
    refine (hname.bind (q := fun _ s'' => ∃ s', adds m s s' ∧ Chain adds ms s' s'') ?_).congr ?_
    · rintro _ ⟨name, hspells, rfl⟩
      exact (hmember_m s name _ hspells (Grammar.ends_joined _ ms rest)).bind fun s' _ => hlater s'
    · intro s''
      constructor
      · rintro ⟨_, -, s', hadds, hchain⟩
        exact .cons hadds hchain
      · rintro (_ | ⟨hadds, hchain⟩)
        obtain ⟨name, hspells⟩ := hnamed_m _ _ hadds
        exact ⟨some name, ⟨name, hspells, rfl⟩, _, hadds, hchain⟩

end Reader

/-! ### Records -/

/-- **Records.**  A record is completed from what its members make. -/
theorem Record.decides_read {r : Record σ α} {adds : Member → σ → σ → Prop}
    (hnamed : ∀ m ∈ ms, ∀ s s', adds m s s' → ∃ name, m.Named name)
    (hmember : ∀ m ∈ ms, ∀ s name more, m.Named name → Numeral.Ends (m.item.behind.chars ++ more) →
      Decides (r.member s name) (m.behind.chars ++ ':' :: (m.item.text ++ more))
        (m.item.behind.chars ++ more) (adds m s))
    (before gap : Gap) (rest : List Char) :
    Decides r.read (before.chars ++ (Grammar.bracketed .curly gap (ms.map Member.text) ++ rest)) rest
      fun x => ∃ s, Chain adds ms r.start s ∧ r.complete s = .ok x := by
  have hroom : ms.length <
      (' ' :: (gap.chars ++ (Grammar.joined true ms ++ '\x7d' :: rest))).length := by
    have h := Grammar.length_le_joined true ms
    simp only [List.length_cons, List.length_append]
    omega
  have hmembers : Decides (Reader.members r.member r.start)
      (gap.chars ++ (Grammar.joined true ms ++ '\x7d' :: rest)) ('\x7d' :: rest)
      (Chain adds ms r.start) :=
    (Reader.decides_membersFrom hnamed hmember r.start true gap rest _ hroom).lift
      fun _ ho => ho.of_eq fun line column => ⟨line, column, rfl⟩
  have hfinish : ∀ s, Decides (r.finish s) ('\x7d' :: rest) ('\x7d' :: rest)
      fun x => r.complete s = .ok x := by
    intro s
    unfold Record.finish
    cases r.complete s with
    | ok x =>
      refine (Decides.of_yields (Reader.yields_pure x _)).congr fun y => ?_
      rw [Except.ok.injEq, eq_comm]
    | error m => exact .of_refused (Reader.yields_unfit m _) fun x => by simp
  have htext : Grammar.bracketed .curly gap (ms.map Member.text) ++ rest =
      '\x7b' :: (gap.chars ++ (Grammar.joined true ms ++ '\x7d' :: rest)) := by
    simp [Grammar.bracketed, Grammar.joined_eq_intercalate, Bracket.opening, Bracket.closing]
  have hread : Decides (Reader.enclosed .curly do r.finish (← Reader.members r.member r.start))
      (gap.chars ++ (Grammar.joined true ms ++ '\x7d' :: rest)) rest
      fun x => ∃ s, Chain adds ms r.start s ∧ r.complete s = .ok x :=
    (hmembers.bind fun s _ => hfinish s).enclosed
  rw [htext, Record.read]
  exact hread.lift fun o ho => Yields.behind_gap (Yields.peeked ho.dropped rfl) before

end ExprForest.Json

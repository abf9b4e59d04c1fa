import ExprForest.Proofs.Statement.Places
import ExprForest.Statement.Descent

namespace ExprForest.Statement

/-!
# Rules on characters and on lexemes

The search of `ExprForest.Statement.Search` passes over the characters of a line and the spaces between the
parts of a rule, the matchers of `ExprForest.Statement.Descent` over the lexemes of the line.  They find the
same.

* `Found.Follows`, `Search.Follows` — what is found at a place against an attempt on the lexemes from there
  on, and a search that always finds what a matcher does;
* `Search.Follows.andThen`, `Search.Follows.many` and their like — kept by all ways to combine rules;
* `Search.follows_expression`, `Search.follows_statement` — so it is for the rules of the grammar.
-/

variable {n k size : Nat} {place next : Place} {tries : Tries} {ts us : List Token} {parts : List Part}

/-! ### Following -/

/-- What is found at a place from which a line goes on with the tokens `ts`, against an attempt on their
    lexemes.  A match takes up at least `n` lexemes, and at least a character for each. -/
inductive Found.Follows (n size : Nat) (place : Place) (ts : List Token) : Found → Attempt → Prop where
  | failed :
      Follows n size place ts .failed .failed
  | tooDeep :
      Follows n size place ts .tooDeep .tooDeep
  | matched {parts : List Part} {next : Place} {us : List Token} :
      next.Shows size us → us.length + n ≤ ts.length →
      next.rest.length + ts.length ≤ place.rest.length + us.length →
      Follows n size place ts (.matched parts next) (.matched parts (us.map Token.lexeme))

namespace Search

/-- Whether a search finds what a matcher does, with matches of at least `n` lexemes. -/
def Follows (n : Nat) (s : Search) (m : Matcher) : Prop :=
  ∀ size place tries ts, place.Settled → place.Shows size ts →
    (s place tries).1.Follows n size place ts (m (ts.map Token.lexeme))

namespace Follows

variable {s s' : Search} {m m' : Matcher} {rule : Rule}

theorem mono (h : Follows n s m) (hle : k ≤ n) : Follows k s m := by
  intro size place tries ts hsettled hshows
  have hfound := h size place tries ts hsettled hshows
  generalize (s place tries).1 = found, m (ts.map Token.lexeme) = a at hfound
  cases hfound with
  | failed => exact .failed
  | tooDeep => exact .tooDeep
  | matched hnext htokens hchars => exact .matched hnext (by omega) hchars

theorem andThen (h : Follows n s m) (h' : Follows k s' m') :
    Follows (n + k) (s.andThen s') (m.andThen m') := by
  intro size place tries ts hsettled hshows
  have hfirst := h size place tries ts hsettled hshows
  simp only [Search.andThen, Matcher.andThen]
  generalize s place tries = r, m (ts.map Token.lexeme) = a at hfirst
  obtain ⟨found, tries'⟩ := r
  cases hfirst with
  | failed => exact .failed
  | tooDeep => exact .tooDeep
  | @matched parts next us hnext htokens hchars =>
    -- the second one starts behind the spaces
    have hsecond := h' size next.skip tries' us next.settled_skip hnext.skip
    have hskip := next.length_skip_le
    simp only
    generalize s' next.skip tries' = r, m' (us.map Token.lexeme) = a at hsecond
    obtain ⟨found', tries''⟩ := r
    cases hsecond with
    | failed => exact .failed
    | tooDeep => exact .tooDeep
    | matched hnext' htokens' hchars' => exact .matched hnext' (by omega) (by omega)

theorem orElse (h : Follows n s m) (h' : Follows n s' m') :
    Follows n (s.orElse s') (m.orElse m') := by
  intro size place tries ts hsettled hshows
  have hfirst := h size place tries ts hsettled hshows
  simp only [Search.orElse, Matcher.orElse]
  generalize s place tries = r, m (ts.map Token.lexeme) = a at hfirst
  obtain ⟨found, tries'⟩ := r
  cases hfirst with
  | failed => exact h' size place tries' ts hsettled hshows
  | tooDeep => exact .tooDeep
  | matched hnext htokens hchars => exact .matched hnext htokens hchars

/-- What is taken down does not matter for what is found. -/
theorem named (h : Follows n s m) : Follows n (Search.named rule s) m := by
  intro size place tries ts hsettled hshows
  have hfound := h size place tries ts hsettled hshows
  simp only [Search.named]
  generalize s place tries = r at hfound
  obtain ⟨found, tries'⟩ := r
  cases found <;> exact hfound

theorem phrase (h : Follows n s m) : Follows n (Search.phrase rule s) (Matcher.phrase rule m) := by
  refine named fun size place tries ts hsettled hshows => ?_
  have hfound := h size place tries ts hsettled hshows
  simp only [Matcher.phrase]
  generalize s place tries = r, m (ts.map Token.lexeme) = a at hfound
  obtain ⟨found, tries'⟩ := r
  cases hfound with
  | failed => exact .failed
  | tooDeep => exact .tooDeep
  | matched hnext htokens hchars => exact .matched hnext htokens hchars

/-- Repetition, from any place on.  There is room for as many times as the characters and as the lexemes
    allow. -/
theorem manyFrom {room : List Char} {slots : List Lexeme} (h : Follows 1 s m) (hnil : m [] = .failed)
    (hshows : place.Shows size ts) (hroom : place.rest.length ≤ room.length)
    (hslots : ts.length ≤ slots.length) (tries : Tries) :
    (s.manyFrom room place tries).1.Follows 0 size place ts
      (m.manyFrom slots (ts.map Token.lexeme)) := by
  induction slots generalizing room place ts tries with
  | nil =>
    obtain rfl := List.eq_nil_of_length_eq_zero (Nat.le_zero.mp hslots)
    have hfound := h size place.skip tries [] place.settled_skip hshows.skip
    rw [List.map_nil, hnil] at hfound
    rw [Search.manyFrom]
    generalize s place.skip tries = r at hfound
    obtain ⟨found, tries'⟩ := r
    cases hfound
    exact .matched hshows (Nat.le_refl _) (Nat.le_refl _)
  | cons _ slots ih =>
    have hfound := h size place.skip tries ts place.settled_skip hshows.skip
    have hskip := place.length_skip_le
    rw [Search.manyFrom, Matcher.manyFrom]
    generalize s place.skip tries = r, m (ts.map Token.lexeme) = a at hfound
    obtain ⟨found, tries'⟩ := r
    cases hfound with
    | failed => exact .matched hshows (Nat.le_refl _) (Nat.le_refl _)
    | tooDeep => exact .tooDeep
    | @matched parts next us hnext htokens hchars =>
      cases room with
      | nil => exact absurd hroom (by simp only [List.length_nil]; omega)
      | cons _ room =>
        simp only [List.length_cons] at hroom hslots
        have hroom' : next.rest.length ≤ room.length := by omega
        have hrest := ih hnext hroom' (by omega) tries'
        simp only
        generalize s.manyFrom room next tries' = r, m.manyFrom slots (us.map Token.lexeme) = a at hrest
        obtain ⟨found, tries''⟩ := r
        cases hrest with
        | failed => exact .failed
        | tooDeep => exact .tooDeep
        | matched hnext' htokens' hchars' => exact .matched hnext' (by omega) (by omega)

theorem many (h : Follows 1 s m) (hnil : m [] = .failed) : Follows 0 s.many m.many := by
  intro size place tries ts _ hshows
  exact h.manyFrom hnil hshows (Nat.le_refl _) (Nat.le_of_eq (List.length_map _).symm) tries

theorem chain (h : Follows 1 s m) (h' : Follows 1 s' m') (hnil : m' [] = .failed) :
    Follows 1 (Search.chain rule s s') (Matcher.chain rule m m') := by
  have hnil' : (m'.andThen m) [] = .failed := by
    simp only [Matcher.andThen, hnil]
  exact (h.andThen (((h'.andThen h).mono (by decide)).many hnil')).phrase

end Follows

/-! ### Lexemes -/

/-- A search for a lexeme follows a matcher that takes the same lexeme. -/
theorem follows_reading {read : List Char → List Char} {P : Lexeme → Prop}
    {parts : List Char → List Part} {m : Matcher} (hread : Lexeme.Read read P) (hnil : m [] = .failed)
    (hmatched : ∀ l ls, P l → m (l :: ls) = .matched (parts l.chars) ls)
    (hfailed : ∀ l ls, ¬P l → m (l :: ls) = .failed) : Follows 1 (reading read parts) m := by
  intro size place tries ts hsettled hshows
  cases ts with
  | nil =>
    rw [reading_failed hread hsettled hshows nofun, List.map_nil, hnil]
    exact .failed
  | cons t ts =>
    obtain ⟨-, hl, hbehind⟩ := hsettled.shows_cons hshows
    rw [List.map_cons]
    by_cases hP : P t.lexeme
    · rw [reading_matched hread hsettled hshows hP, hmatched _ _ hP]
      have hshorter := Place.length_behind_lt hl
      refine .matched hbehind ?_ ?_ <;> simp only [List.length_cons] <;> omega
    · have hleft : ∀ u us, t :: ts = u :: us → ¬P u.lexeme := by
        rintro _ _ ⟨⟩
        exact hP
      rw [reading_failed hread hsettled hshows hleft, hfailed _ _ hP]
      exact .failed

theorem follows_sign {c : Char} {l : Lexeme} (rule : Rule) (hsign : Lexeme.ofSign? c = some l) :
    Follows 1 (lexeme rule (sign c)) (Matcher.sign rule l) := by
  refine (follows_reading (Lexeme.read_sign hsign) rfl ?_ ?_).named
  · rintro _ ls rfl
    exact if_pos rfl
  · intro l' ls hne
    exact if_neg hne

theorem follows_silent {c : Char} {l : Lexeme} (hsign : Lexeme.ofSign? c = some l) :
    Follows 1 (silent (sign c)) (Matcher.silent l) := by
  refine follows_reading (Lexeme.read_sign hsign) rfl ?_ ?_
  · rintro _ ls rfl
    exact if_pos rfl
  · intro l' ls hne
    exact if_neg hne

theorem follows_number : Follows 1 number Matcher.number := by
  refine (follows_reading Lexeme.read_number rfl ?_ ?_).named
  · rintro _ ls ⟨text, rfl⟩
    rfl
  · intro l ls hne
    cases l with
    | number text => exact absurd ⟨text, rfl⟩ hne
    | _ => rfl

theorem follows_identifier : Follows 1 identifier Matcher.identifier := by
  refine (follows_reading Lexeme.read_name rfl ?_ ?_).named
  · rintro _ ls ⟨text, rfl⟩
    rfl
  · intro l ls hne
    cases l with
    | name text => exact absurd ⟨text, rfl⟩ hne
    | _ => rfl

theorem follows_endOfInput : Follows 0 endOfInput Matcher.endOfInput := by
  refine Follows.named fun size place tries ts hsettled hshows => ?_
  cases ts with
  | nil =>
    rw [(hsettled.shows_nil hshows).1]
    exact .matched hshows (Nat.le_refl _) (Nat.le_refl _)
  | cons t ts =>
    obtain ⟨c, cs, hrest⟩ := List.exists_cons_of_length_pos (Nat.zero_lt_of_lt hshows.length_le)
    rw [hrest]
    exact .failed

/-! ### Rules -/

section Rules

variable {nested : Search} {nested' : Matcher}

theorem follows_arguments (h : Follows 1 nested nested') :
    Follows 1 (arguments nested) (Matcher.arguments nested') :=
  h.chain (follows_silent rfl) rfl

theorem follows_primary (h : Follows 1 nested nested') :
    Follows 1 (primary nested) (Matcher.primary nested') := by
  have hopen := follows_silent (c := '(') rfl
  have hclose := follows_silent (c := ')') rfl
  have hcall : Follows 1 (call nested) (Matcher.call nested') :=
    ((follows_identifier.andThen
      (hopen.andThen ((follows_arguments h).andThen hclose))).phrase).mono (by decide)
  have hgroup := (hopen.andThen (h.andThen hclose)).mono (show 1 ≤ 1 + (1 + 1) by decide)
  exact hcall.orElse (follows_number.orElse (follows_identifier.orElse hgroup))

/-- The rules from the primary up to the expression. -/
theorem follows_expressionOver (h : Follows 1 nested nested') :
    Follows 1 (expressionOver nested) (Matcher.expressionOver nested') := by
  have hpower : Follows 1 (power nested) (Matcher.power nested') :=
    (follows_primary h).chain (follows_sign .exponent rfl) rfl
  have hproduct : Follows 1 (product nested) (Matcher.product nested') :=
    hpower.chain ((follows_sign .multiply rfl).orElse (follows_sign .divide rfl)) rfl
  have hsum : Follows 1 (sum nested) (Matcher.sum nested') :=
    hproduct.chain ((follows_sign .add rfl).orElse (follows_sign .subtract rfl)) rfl
  exact hsum.chain (follows_sign .assign rfl) rfl

end Rules

/-- **Expressions.**  On characters and on lexemes the same is found, whatever the levels. -/
theorem follows_expression (levels : Nat) :
    Follows 1 (expression levels) (Matcher.expression levels) := by
  induction levels with
  | zero => exact follows_expressionOver fun _ _ _ _ _ _ => .tooDeep
  | succ levels ih => exact follows_expressionOver ih

/-- The search for a statement starts behind the first spaces of the line. -/
theorem startOfInput_andThen (s : Search) (line : String) (tries : Tries) :
    (startOfInput.andThen s) (.start line) tries = s (Place.start line).skip tries := by
  have hstart : startOfInput (.start line) tries = (.matched [] (.start line), tries) := if_pos rfl
  rw [andThen, hstart]
  simp only
  rcases s (Place.start line).skip tries with ⟨_ | _ | _, _⟩ <;> rfl

/-- **Lines.**  A search for a statement finds in the characters of a line what the matcher finds in its
    lexemes. -/
theorem follows_statement {line : String} (levels : Nat) (hlex : Token.Lexes line ts) :
    (statement levels (.start line) .none).1.Follows 0 line.utf8ByteSize (.start line) ts
      (Matcher.statement levels (ts.map Token.lexeme)) := by
  have hline : Follows 0 ((expression levels).andThen endOfInput)
      ((Matcher.expression levels).andThen Matcher.endOfInput) :=
    ((follows_expression levels).andThen follows_endOfInput).mono (Nat.zero_le _)
  have hshows := Place.shows_start hlex
  have hskip := (Place.start line).length_skip_le
  have hfound := hline _ (Place.start line).skip .none ts (Place.settled_skip _) hshows.skip
  rw [← startOfInput_andThen ((expression levels).andThen endOfInput)] at hfound
  simp only [statement, phrase, named, Matcher.statement, Matcher.phrase]
  generalize (startOfInput.andThen ((expression levels).andThen endOfInput)) (.start line) .none = r,
    ((Matcher.expression levels).andThen Matcher.endOfInput) (ts.map Token.lexeme) = a at hfound
  obtain ⟨found, tries⟩ := r
  cases hfound with
  | failed => exact .failed
  | tooDeep => exact .tooDeep
  | matched hnext htokens hchars => exact .matched hnext htokens (by omega)

end Search

end ExprForest.Statement

import ExprForest.Proofs.Statement.Descent
import ExprForest.Proofs.Statement.Operands
import ExprForest.Proofs.Statement.Places
import ExprForest.Proofs.Statement.Tries

namespace ExprForest.Statement

/-!
# What a search makes of operands

A search retries a name whose arguments fail and gives back a sign whose right side fails, and it goes on
trying rules from there.  The reader never goes back.  Yet all that the search tries again stands before the
place at which the reader stops, and what it tries at that place is told by why the reader stops.

* `Stop.tried` — the rules tried in vain where the reader stops;
* `Explored` — what a search makes of an operand: it is matched and the signs behind it are tried in vain, it
  is missing, or the tries go further than anything that is matched;
* `Tests`, `Separates` — searches for single lexemes, and for the signs of one looseness;
* `Explores.chain` — a search that explores operands does so with signs between them.
-/

open Lexeme (Balanced)

variable {n k size : Nat} {place next : Place} {tries : Tries} {t : Token} {ts us : List Token}
variable {found : Found} {stop : Stop} {rule : Rule} {p o : Search}

/-- The lexemes of some tokens. -/
abbrev lexemes (ts : List Token) : List Lexeme := ts.map Token.lexeme

theorem lexemes_cons : lexemes (t :: ts) = t.lexeme :: lexemes ts :=
  rfl

theorem lexemes_append : lexemes (ts ++ us) = lexemes ts ++ lexemes us :=
  List.map_append

/-! ### Rules tried in vain -/

/-- The rules for the signs of a looseness, in the order in which they are tried.  A comma has none. -/
def signRules : Nat → List Rule
  | 1 => [.exponent]
  | 2 => [.multiply, .divide]
  | 3 => [.add, .subtract]
  | 4 => [.assign]
  | _ => []

/-- The rules tried behind an operand for signs up to a looseness. -/
def signRulesUpTo : Nat → List Rule
  | 0 => []
  | n + 1 => signRulesUpTo n ++ signRules (n + 1)

/-- The rules tried where an operand is missing.  A chain of primaries is tried as a whole, but for an
    exponent. -/
def operandRules (n : Nat) : List Rule :=
  if n = 0 then [.identifier, .number, .identifier] else [.power]

/-- The rules tried in vain where the reader stops. -/
def Stop.tried : Stop → List Rule
  | .operandMissing afterCaret => operandRules (if afterCaret then 0 else 4)
  | .operatorMissing true => signRulesUpTo 4
  | .operatorMissing false => signRulesUpTo 4 ++ [.endOfInput]
  | .notANumber _ => []

theorem operandRules_ne_nil : operandRules n ≠ [] := by
  rw [operandRules]
  split <;> simp

theorem tried_operandMissing : (Stop.operandMissing (decide (n = 0))).tried = operandRules n := by
  cases n <;> rfl

/-! ### Operands -/

/-- Nothing is matched, or a match ends before some byte, with a sign behind it that is not looser than `n`,
    or with a parenthesis. -/
inductive Found.Short (size n offset : Nat) : Found → Prop where
  | failed :
      Short size n offset .failed
  | matched {parts : List Part} {next : Place} {t : Token} {us : List Token} :
      next.Shows size (t :: us) → t.lexeme.looseness ≤ n → next.skip.offset < offset →
      Short size n offset (.matched parts next)

/-- The parts of a match do not matter. -/
theorem Found.Short.parts {parts parts' : List Part} (h : (Found.matched parts next).Short size n k) :
    (Found.matched parts' next).Short size n k := by
  cases h with
  | matched hnext hlooseness hlt => exact .matched hnext hlooseness hlt

/-- Some tokens begin with a parenthesis or with what is looser than `n`, if there are any. -/
def Beyond (n : Nat) (ts : List Token) : Prop :=
  ∀ t us, ts = t :: us → t.lexeme.looseness = 0 ∨ n < t.lexeme.looseness

/-- What a search makes of an operand of looseness `n`. -/
inductive Explored (size n : Nat) (place : Place) (ts : List Token) : Found × Tries → Prop where
  /-- The operand is matched, and the signs that may stand behind it are tried in vain. -/
  | operand {parts : List Part} {next : Place} {ms rest : List Token} {tries : Tries} :
      ts = ms ++ rest → next.Shows size rest → place.offset < next.offset →
      Balanced (lexemes ms) → Passes n (lexemes ms) (lexemes rest) → Beyond n rest →
      tries.UpTo next.skip.offset (signRulesUpTo n) →
      Explored size n place ts (.matched parts next, tries)
  /-- No operand stands here. -/
  | lacking {tries : Tries} :
      Lacks (lexemes ts) → tries.UpTo place.offset (operandRules n) →
      Explored size n place ts (.failed, tries)
  /-- The reader stops further on, where the last rules were tried. -/
  | stalled {found : Found} {before after : List Token} {stop : Stop} {last : Place} :
      ts = before ++ after → Stalls n (lexemes before) (lexemes after) stop →
      last.Shows size after → last.Settled → place.offset < last.offset →
      found.Short size n last.offset →
      Explored size n place ts (found, ⟨last.offset, stop.tried⟩)

/-- Whether a search explores operands of looseness `n` where `k` levels are enough. -/
def Explores (k n : Nat) (s : Search) : Prop :=
  ∀ size place tries ts, place.Settled → place.Shows size ts → Fits k (lexemes ts) →
    tries.UpTo place.offset [] → Explored size n place ts (s place tries)

/-! ### Single lexemes -/

/-- Whether a search takes the lexemes that have a property, and takes down some rules where there is none of
    them. -/
structure Tests (P : Lexeme → Prop) (rules : List Rule) (o : Search) : Prop where
  matched {size : Nat} {place : Place} {t : Token} {ts : List Token} (tries : Tries)
    (hsettled : place.Settled) (hshows : place.Shows size (t :: ts)) (hP : P t.lexeme) :
    ∃ parts tries', o place tries = (.matched parts (place.behind t.lexeme.chars), tries') ∧
      (tries.place ≤ place.offset → tries'.place ≤ place.offset) ∧
      (place.offset < tries.place → tries' = tries)
  failed {size : Nat} {place : Place} {ts : List Token} (tries : Tries)
    (hsettled : place.Settled) (hshows : place.Shows size ts)
    (hP : ∀ t us, ts = t :: us → ¬P t.lexeme) :
    ∃ tries', o place tries = (.failed, tries') ∧
      (∀ rules', tries.UpTo place.offset rules' → tries'.UpTo place.offset (rules' ++ rules)) ∧
      (place.offset < tries.place → tries' = tries)

namespace Tests

variable {P Q : Lexeme → Prop} {rules rules' : List Rule} {o' : Search}
variable {read : List Char → List Char}

theorem lexeme (rule : Rule) (hread : Lexeme.Read read P) : Tests P [rule] (Search.lexeme rule read) where
  matched tries hsettled hshows hP :=
    ⟨_, tries, Search.lexeme_matched hread hsettled hshows hP, id, fun _ => rfl⟩
  failed _ hsettled hshows hP :=
    ⟨_, Search.lexeme_failed hread hsettled hshows hP, fun _ h => h.note_self, Tries.note_of_lt⟩

theorem silent (hread : Lexeme.Read read P) : Tests P [] (Search.silent read) where
  matched tries hsettled hshows hP :=
    ⟨_, tries, Search.reading_matched hread hsettled hshows hP, id, fun _ => rfl⟩
  failed tries hsettled hshows hP := by
    refine ⟨tries, Search.reading_failed hread hsettled hshows hP, fun rules h => ?_, fun _ => rfl⟩
    rwa [List.append_nil]

theorem orElse (h : Tests P rules o) (h' : Tests Q rules' o') :
    Tests (fun l => P l ∨ Q l) (rules ++ rules') (o.orElse o') where
  matched {size place t ts} tries hsettled hshows hPQ := by
    by_cases hP : P t.lexeme
    · obtain ⟨parts, tries', ho, hle⟩ := h.matched tries hsettled hshows hP
      exact ⟨parts, tries', by simp only [Search.orElse, ho], hle⟩
    · have hleft : ∀ u us, t :: ts = u :: us → ¬P u.lexeme := by
        rintro _ _ ⟨⟩
        exact hP
      obtain ⟨tries', ho, hupTo, hkept⟩ := h.failed tries hsettled hshows hleft
      obtain ⟨parts, tries'', ho', hle, hkept'⟩ :=
        h'.matched tries' hsettled hshows (hPQ.resolve_left hP)
      refine ⟨parts, tries'', by simp only [Search.orElse, ho, ho'], fun hplace => ?_, fun hlt => ?_⟩
      · exact hle (hupTo _ ⟨hplace, rfl⟩).place_le
      · obtain rfl := hkept hlt
        exact hkept' hlt
  failed {size place ts} tries hsettled hshows hPQ := by
    obtain ⟨tries', ho, hupTo, hkept⟩ :=
      h.failed tries hsettled hshows fun t us hts hP => hPQ t us hts (.inl hP)
    obtain ⟨tries'', ho', hupTo', hkept'⟩ :=
      h'.failed tries' hsettled hshows fun t us hts hQ => hPQ t us hts (.inr hQ)
    refine ⟨tries'', by simp only [Search.orElse, ho, ho'], fun rules₀ h₀ => ?_, fun hlt => ?_⟩
    · rw [← List.append_assoc]
      exact hupTo' _ (hupTo _ h₀)
    · obtain rfl := hkept hlt
      exact hkept' hlt

theorem congr (h : Tests P rules o) (hPQ : ∀ l, P l ↔ Q l) : Tests Q rules o := by
  obtain rfl : P = Q := funext fun l => propext (hPQ l)
  exact h

end Tests

/-! ### Signs between operands -/

/-- Whether a search takes the signs of looseness `n`. -/
def Separates (n : Nat) (o : Search) : Prop :=
  Tests (fun l => l.looseness = n) (signRules n) o

theorem separates_caret : Separates 1 (Search.lexeme .exponent (Search.sign '^')) := by
  refine (Tests.lexeme _ (Lexeme.read_sign rfl)).congr fun l => ?_
  cases l <;> simp [Lexeme.looseness]

theorem separates_multiplicative :
    Separates 2 ((Search.lexeme .multiply (Search.sign '*')).orElse
      (Search.lexeme .divide (Search.sign '/'))) := by
  refine ((Tests.lexeme _ (Lexeme.read_sign rfl)).orElse
    (Tests.lexeme _ (Lexeme.read_sign rfl))).congr fun l => ?_
  rcases l with _ | _ | _ | _ | ⟨_ | _⟩ | _ | _ | _ | _ <;> simp [Lexeme.looseness]

theorem separates_additive :
    Separates 3 ((Search.lexeme .add (Search.sign '+')).orElse
      (Search.lexeme .subtract (Search.sign '-'))) := by
  refine ((Tests.lexeme _ (Lexeme.read_sign rfl)).orElse
    (Tests.lexeme _ (Lexeme.read_sign rfl))).congr fun l => ?_
  rcases l with _ | _ | _ | ⟨_ | _⟩ | _ | _ | _ | _ | _ <;> simp [Lexeme.looseness]

theorem separates_equals : Separates 4 (Search.lexeme .assign (Search.sign '=')) := by
  refine (Tests.lexeme _ (Lexeme.read_sign rfl)).congr fun l => ?_
  cases l <;> simp [Lexeme.looseness]

theorem separates_comma : Separates 5 (Search.silent (Search.sign ',')) := by
  refine (Tests.silent (Lexeme.read_sign rfl)).congr fun l => ?_
  cases l <;> simp [Lexeme.looseness]

/-! ### Chains -/

/-- What a search makes of the signs and operands behind an operand of looseness less than `n`: it takes all
    there are, or the tries go further than what it takes. -/
inductive Continued (size n : Nat) (place : Place) (ts : List Token) : Found × Tries → Prop where
  | ended {parts : List Part} {next : Place} {ms rest : List Token} {tries : Tries} :
      ts = ms ++ rest → next.Shows size rest → place.offset ≤ next.offset →
      Balanced (lexemes ms) → GoesOn n (lexemes ms) (lexemes rest) → Beyond n rest →
      tries.UpTo next.skip.offset (signRulesUpTo n) →
      Continued size n place ts (.matched parts next, tries)
  | stalled {parts : List Part} {next last : Place} {before after : List Token} {stop : Stop} :
      ts = before ++ after → Halts n (lexemes before) (lexemes after) stop →
      last.Shows size after → last.Settled → place.offset < last.offset →
      Found.Short size n last.offset (.matched parts next) →
      Continued size n place ts (.matched parts next, ⟨last.offset, stop.tried⟩)

/-- A repetition never fails. -/
theorem Continued.exists_matched {r : Found × Tries} (h : Continued size n place ts r) :
    ∃ parts last tries, r = (.matched parts last, tries) := by
  cases h <;> exact ⟨_, _, _, rfl⟩

section Chains

variable {signs parts more : List Part} {last : Place} {tries' tries'' tries₁ : Tries} {room : List Char}

theorem chain_failed (h : p place tries = (.failed, tries')) :
    Search.chain rule p o place tries = (.failed, tries'.note tries rule place.offset) := by
  simp only [Search.chain, Search.phrase, Search.named, Search.andThen, h]

theorem chain_matched (h : p place tries = (.matched parts next, tries'))
    (h' : (o.andThen p).many next.skip tries' = (.matched more last, tries'')) :
    Search.chain rule p o place tries = (.matched [.phrase rule (parts ++ more)] last, tries'') := by
  simp only [Search.chain, Search.phrase, Search.named, Search.andThen, h, h']

theorem manyFrom_without_sign (h : o place.skip tries = (.failed, tries')) :
    (o.andThen p).manyFrom room place tries = (.matched [] place, tries') := by
  cases room <;> simp only [Search.manyFrom, Search.andThen, h]

theorem manyFrom_without_operand (h : o place.skip tries = (.matched signs next, tries₁))
    (h' : p next.skip tries₁ = (.failed, tries')) :
    (o.andThen p).manyFrom room place tries = (.matched [] place, tries') := by
  cases room <;> simp only [Search.manyFrom, Search.andThen, h, h']

theorem manyFrom_matched {next' : Place} {c : Char} (h : o place.skip tries = (.matched signs next, tries₁))
    (h' : p next.skip tries₁ = (.matched parts next', tries'))
    (h'' : (o.andThen p).manyFrom room next' tries' = (.matched more last, tries'')) :
    (o.andThen p).manyFrom (c :: room) place tries = (.matched (signs ++ parts ++ more) last, tries'') := by
  simp only [Search.manyFrom, Search.andThen, h, h', h'']

section Operand

variable {ms rest : List Token} {parts' : List Part} (hn : n < 5)
variable (hbalanced : Balanced (lexemes ms)) (hpasses : Passes n (lexemes ms) (lexemes rest))
variable (h : Continued size (n + 1) next rest (.matched parts last, tries))
include hn hbalanced hpasses h

/-- An operand, and what goes on behind it. -/
theorem Continued.explored (hlt : place.offset < next.offset) :
    Explored size (n + 1) place (ms ++ rest) (.matched parts' last, tries) := by
  cases h with
  | @ended _ _ ms' rest' _ hrest hlast hle hbalanced' hgoes hbeyond htries =>
    subst hrest
    rw [lexemes_append] at hpasses
    refine .operand (List.append_assoc ms ms' rest').symm hlast (by omega) ?_ ?_ hbeyond htries
    · rw [lexemes_append]
      exact hbalanced.append hbalanced'
    · rw [lexemes_append]
      exact hpasses.goesOn hn hgoes
  | @stalled _ _ last' before after stop hrest hhalts hlast hsettled hlt' hshort =>
    subst hrest
    rw [lexemes_append] at hpasses
    refine .stalled (List.append_assoc ms before after).symm ?_ hlast hsettled (by omega) hshort.parts
    rw [lexemes_append]
    exact hpasses.halts hn hhalts

/-- A sign with an operand, and what goes on behind them. -/
theorem Continued.behind_sign (hle : place.offset ≤ next.offset) (hsign : Balanced [t.lexeme])
    (hl : t.lexeme.looseness = n + 1) :
    Continued size (n + 1) place (t :: (ms ++ rest)) (.matched parts' last, tries) := by
  cases h with
  | @ended _ _ ms' rest' _ hrest hlast hle' hbalanced' hgoes hbeyond htries =>
    subst hrest
    have hparts : t :: (ms ++ (ms' ++ rest')) = (t :: (ms ++ ms')) ++ rest' := by simp
    rw [lexemes_append] at hpasses
    refine .ended hparts hlast (by omega) ?_ ?_ hbeyond htries
    · rw [lexemes_cons, lexemes_append]
      exact hsign.append (hbalanced.append hbalanced')
    · rw [lexemes_cons, lexemes_append]
      exact hpasses.goesOn_cons hl hn hgoes
  | @stalled _ _ last' before after stop hrest hhalts hlast hsettled hlt hshort =>
    subst hrest
    have hparts : t :: (ms ++ (before ++ after)) = (t :: (ms ++ before)) ++ after := by simp
    rw [lexemes_append] at hpasses
    refine .stalled hparts ?_ hlast hsettled (by omega) hshort.parts
    rw [lexemes_cons, lexemes_append]
    exact hpasses.halts_cons hl hn hhalts

end Operand

variable (ho : Separates (n + 1) o)
include ho

/-- Where the tries have gone further, no sign is taken and no try is kept. -/
theorem manyFrom_of_lt (hnext : next.Shows size (t :: us)) (hlooseness : t.lexeme.looseness ≤ n)
    (hlt : next.skip.offset < tries.place) :
    (o.andThen p).manyFrom room next tries = (.matched [] next, tries) := by
  have hne : ∀ u vs, t :: us = u :: vs → ¬u.lexeme.looseness = n + 1 := by
    rintro _ _ ⟨⟩
    omega
  obtain ⟨tries', hfailed, -, hkept⟩ := ho.failed tries next.settled_skip hnext.skip hne
  rw [hkept hlt] at hfailed
  exact manyFrom_without_sign hfailed

/-- A sign that is not there is tried in vain, behind all that bind tighter. -/
theorem continued_without_sign (hshows : place.Shows size ts)
    (hne : ∀ t us, ts = t :: us → ¬t.lexeme.looseness = n + 1) (hbeyond : Beyond n ts)
    (htries : tries.UpTo place.skip.offset (signRulesUpTo n)) :
    Continued size (n + 1) place ts ((o.andThen p).manyFrom room place tries) := by
  obtain ⟨tries', hfailed, hupTo, -⟩ := ho.failed tries place.settled_skip hshows.skip hne
  rw [manyFrom_without_sign hfailed]
  refine .ended (List.nil_append ts).symm hshows (Nat.le_refl _) (fun _ => rfl) goesOn_nil ?_
    (hupTo _ htries)
  intro t us hts
  have hlooseness := hbeyond t us hts
  have := hne t us hts
  omega

/-- A sign is taken, and what follows it is explored. -/
theorem explored_behind_sign (hp : Explores k n p) (hn : n < 5) (hshows : place.Shows size (t :: us))
    (hl : t.lexeme.looseness = n + 1) (hfits : Fits k (lexemes (t :: us)))
    (hplace : tries.place ≤ place.skip.offset) :
    ∃ parts next tries', o place.skip tries = (.matched parts next, tries') ∧ next.Shows size us ∧
      place.skip.offset < next.offset ∧ Balanced [t.lexeme] ∧ Fits k (lexemes us) ∧
      Explored size n next.skip us (p next.skip tries') := by
  obtain ⟨-, hlongest, hbehind⟩ := place.settled_skip.shows_cons hshows.skip
  obtain ⟨parts, tries', hmatched, hle, -⟩ := ho.matched tries place.settled_skip hshows.skip hl
  have hlt := Place.offset_lt_behind hlongest
  generalize place.skip.behind t.lexeme.chars = next at hbehind hmatched hlt
  have hopen : t.lexeme ≠ .openParen := by
    intro ht
    rw [ht] at hl
    cases hl
  have hclose : t.lexeme ≠ .closeParen := by
    intro ht
    rw [ht, Lexeme.looseness] at hl
    omega
  have hinner : Fits k (lexemes us) := hfits.tail hopen hclose
  have hearlier : tries'.place < next.skip.offset :=
    Nat.lt_of_le_of_lt (hle hplace) (Nat.lt_of_lt_of_le hlt next.offset_le_skip)
  exact ⟨parts, next, tries', hmatched, hbehind, hlt, Lexeme.balanced_singleton hopen hclose, hinner,
    hp size next.skip tries' us next.settled_skip hbehind.skip hinner (Tries.upTo_of_lt hearlier)⟩

/-- **Repetition.**  Behind an operand, signs with operands are taken up to what is looser still, and there
    one more sign is tried in vain; or the reader stops on the way. -/
theorem continued_manyFrom (hp : Explores k n p) (hn : n < 5) (hshows : place.Shows size ts)
    (hroom : ts.length ≤ room.length) (hfits : Fits k (lexemes ts)) (hbeyond : Beyond n ts)
    (htries : tries.UpTo place.skip.offset (signRulesUpTo n)) :
    Continued size (n + 1) place ts ((o.andThen p).manyFrom room place tries) := by
  -- on the room, of which every sign takes up some
  induction room generalizing place ts tries with
  | nil =>
    obtain rfl := List.eq_nil_of_length_eq_zero (Nat.le_zero.mp hroom)
    exact continued_without_sign ho hshows nofun hbeyond htries
  | cons _ room ih =>
    by_cases hsign : ∃ t us, ts = t :: us ∧ t.lexeme.looseness = n + 1
    · obtain ⟨t, us, rfl, hl⟩ := hsign
      obtain ⟨signs, next, tries₁, hmatched, hnext, hlt, hbalanced, hinner, hexplored⟩ :=
        explored_behind_sign ho hp hn hshows hl hfits htries.place_le
      have hle := place.offset_le_skip
      have hle' := next.offset_le_skip
      generalize hr : p next.skip tries₁ = r at hexplored
      cases hexplored with
      | @operand parts next' ms rest tries₂ hus hnext' hlt' hbalanced' hpasses hbeyond' htries' =>
        subst hus
        simp only [List.length_cons, List.length_append] at hroom
        have hbehind : Fits k (lexemes rest) := by
          rw [lexemes_append] at hinner
          exact hinner.behind hbalanced'
        have hcontinued := ih hnext' (by omega) hbehind hbeyond' htries'
        obtain ⟨more, last, tries₃, hmany⟩ := hcontinued.exists_matched
        rw [hmany] at hcontinued
        rw [manyFrom_matched hmatched hr hmany]
        exact hcontinued.behind_sign hn hbalanced' hpasses (by omega) hbalanced hl
      | lacking hlacks htries' =>
        obtain rfl := htries'.eq operandRules_ne_nil
        rw [manyFrom_without_operand hmatched hr, ← tried_operandMissing]
        exact .stalled (List.singleton_append (l := us)).symm (hlacks.halts hl hn) hnext.skip
          next.settled_skip (by omega) (.matched hshows hl.le (by omega))
      | @stalled found before after stop last hus hstalls hlast hsettled hlt' hshort =>
        have hparts : t :: us = (t :: before) ++ after := congrArg (t :: ·) hus
        have hhalts : Halts (n + 1) (lexemes (t :: before)) (lexemes after) stop :=
          hstalls.halts_cons hl hn
        cases hshort with
        | failed =>
          rw [manyFrom_without_operand hmatched hr]
          exact .stalled hparts hhalts hlast hsettled (by omega) (.matched hshows hl.le (by omega))
        | matched hnext' hlooseness hlt'' =>
          rw [manyFrom_matched hmatched hr (manyFrom_of_lt ho hnext' hlooseness hlt'')]
          exact .stalled hparts hhalts hlast hsettled (by omega)
            (.matched hnext' (Nat.le_succ_of_le hlooseness) hlt'')
    · refine continued_without_sign ho hshows ?_ hbeyond htries
      exact fun t us hts hl => hsign ⟨t, us, hts, hl⟩

/-- **Chains.**  A search that explores operands explores them with signs between them.  A rule that fails at
    once is taken down for the three that fail inside a primary, and not for a single one. -/
theorem Explores.chain (hp : Explores k n p) (hn : n < 5) (hrule : n = 0 → rule = .power) :
    Explores k (n + 1) (Search.chain rule p o) := by
  intro size place tries ts hsettled hshows hfits htries
  have hexplored := hp size place tries ts hsettled hshows hfits htries
  generalize hr : p place tries = r at hexplored
  cases hexplored with
  | @operand parts next ms rest tries' hts hnext hlt hbalanced hpasses hbeyond htries' =>
    subst hts
    have hfits' : Fits k (lexemes rest) := by
      rw [lexemes_append] at hfits
      exact hfits.behind hbalanced
    have hle := next.offset_le_skip
    have htries'' : tries'.UpTo next.skip.skip.offset (signRulesUpTo n) := by rwa [next.skip_skip]
    have hcontinued := continued_manyFrom ho hp hn hnext.skip hnext.skip.length_le hfits' hbeyond htries''
    obtain ⟨more, last, tries₁, hmany⟩ := hcontinued.exists_matched
    rw [hmany] at hcontinued
    rw [chain_matched hr hmany]
    exact hcontinued.explored hn hbalanced hpasses (by omega)
  | lacking hlacks htries' =>
    rw [chain_failed hr]
    refine .lacking hlacks ?_
    cases n with
    | zero =>
      rw [hrule rfl]
      exact htries.note htries' (by decide)
    | succ n =>
      rw [htries.note_single htries']
      exact htries'
  | @stalled found before after stop last hts hstalls hlast hlastSettled hlt hshort =>
    subst hts
    cases hshort with
    | failed =>
      rw [chain_failed hr, Tries.note_of_lt hlt]
      exact .stalled rfl (hstalls.mono hn) hlast hlastSettled hlt .failed
    | @matched parts next t us hnext hlooseness hlt' =>
      have hmany : (o.andThen p).many next.skip ⟨last.offset, stop.tried⟩ = _ :=
        manyFrom_of_lt ho hnext.skip hlooseness (by rwa [next.skip_skip])
      rw [chain_matched hr hmany]
      exact .stalled rfl (hstalls.mono hn) hlast hlastSettled hlt
        (.matched hnext.skip (Nat.le_succ_of_le hlooseness) (by rwa [next.skip_skip]))

end Chains

end ExprForest.Statement

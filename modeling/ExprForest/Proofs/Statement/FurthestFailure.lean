import ExprForest.Proofs.Statement.Characters
import ExprForest.Proofs.Statement.Explored
import ExprForest.Statement.Rejection

namespace ExprForest.Statement

/-!
# The furthest failure of a search

The furthest byte at which the search of a line tries a rule in vain is the one at which the reader stops, and
the rules tried there are told by why it stops.

* `explored_enclosed`, `explores_primary` — parentheses, and the operands without signs between them;
* `explores_expression` — by induction on the levels, all expressions;
* `search_eq_error`, `search_eq_ok` — where the reader stops, the search tells at which byte and why, and where
  the reader gives a tree, the parts that the search finds have this tree.
-/

open Lexeme (Balanced)

variable {j k n size : Nat} {place next : Place} {tries tries' : Tries} {t u : Token}
variable {ts us vs : List Token} {text : List Char} {parts : List Part} {p nested : Search}

/-! ### Parentheses -/

/-- What a search takes, in parentheses. -/
def enclosed (p : Search) : Search :=
  (Search.silent (Search.sign '(')).andThen (p.andThen (Search.silent (Search.sign ')')))

theorem enclosed_unopened (hsettled : place.Settled) (hshows : place.Shows size ts)
    (h : ∀ t us, ts = t :: us → ¬t.lexeme = .openParen) : enclosed p place tries = (.failed, tries) := by
  have hopen : Search.silent (Search.sign '(') place tries = (.failed, tries) :=
    Search.reading_failed (Lexeme.read_sign rfl) hsettled hshows h
  simp only [enclosed, Search.andThen, hopen]

section Opened

variable (hsettled : place.Settled) (hshows : place.Shows size (t :: us)) (ht : t.lexeme = .openParen)
include hsettled hshows ht

theorem silent_openParen :
    Search.silent (Search.sign '(') place tries = (.matched [] (place.behind t.lexeme.chars), tries) :=
  Search.reading_matched (Lexeme.read_sign rfl) hsettled hshows ht

theorem enclosed_failed (h : p (place.behind t.lexeme.chars).skip tries = (.failed, tries')) :
    enclosed p place tries = (.failed, tries') := by
  simp only [enclosed, Search.andThen, silent_openParen hsettled hshows ht, h]

theorem enclosed_matched (h : p (place.behind t.lexeme.chars).skip tries = (.matched parts next, tries'))
    (hnext : next.Shows size (u :: vs)) (hu : u.lexeme = .closeParen) :
    enclosed p place tries = (.matched parts (next.skip.behind u.lexeme.chars), tries') := by
  have hclosed : Search.silent (Search.sign ')') next.skip tries' =
      (.matched [] (next.skip.behind u.lexeme.chars), tries') :=
    Search.reading_matched (Lexeme.read_sign rfl) next.settled_skip hnext.skip hu
  simp only [enclosed, Search.andThen, silent_openParen hsettled hshows ht, h, hclosed, List.nil_append,
    List.append_nil]

theorem enclosed_unclosed (h : p (place.behind t.lexeme.chars).skip tries = (.matched parts next, tries'))
    (hnext : next.Shows size vs) (hclose : ∀ u us, vs = u :: us → ¬u.lexeme = .closeParen) :
    enclosed p place tries = (.failed, tries') := by
  have hunclosed : Search.silent (Search.sign ')') next.skip tries' = (.failed, tries') :=
    Search.reading_failed (Lexeme.read_sign rfl) next.settled_skip hnext.skip hclose
  simp only [enclosed, Search.andThen, silent_openParen hsettled hshows ht, h, hunclosed]

end Opened

/-- What a search makes of the tokens behind an opening parenthesis: operands of looseness `n` with the
    closing parenthesis behind them, or the reader stops on the way. -/
inductive Enclosed (size n : Nat) (place : Place) (us : List Token) : Found × Tries → Prop where
  | closed {parts : List Part} {next : Place} {ms rest : List Token} {t : Token} {tries : Tries} :
      us = ms ++ t :: rest → t.lexeme = .closeParen → next.Shows size rest →
      place.offset < next.offset → Balanced (lexemes ms) →
      Passes n (lexemes ms) (.closeParen :: lexemes rest) → tries.place < next.offset →
      Enclosed size n place us (.matched parts next, tries)
  | unclosed {before after : List Token} {stop : Stop} {last : Place} :
      us = before ++ after → Blocks n (lexemes before) (lexemes after) stop →
      last.Shows size after → last.Settled → place.offset < last.offset →
      Enclosed size n place us (.failed, ⟨last.offset, stop.tried⟩)

/-- **Parentheses.**  Behind an opening parenthesis, operands are taken up to the closing one, or the reader
    stops on the way. -/
theorem explored_enclosed (hp : Explores j n p) (hn : n = 4 ∨ n = 5) (hsettled : place.Settled)
    (hshows : place.Shows size (t :: us)) (ht : t.lexeme = .openParen) (hfits : Fits j (lexemes us))
    (htries : tries.place ≤ place.offset) :
    Enclosed size n place us (enclosed p place tries) := by
  obtain ⟨-, hlongest, hinner⟩ := hsettled.shows_cons hshows
  have hlt := Nat.lt_of_lt_of_le (Place.offset_lt_behind hlongest)
    (place.behind t.lexeme.chars).offset_le_skip
  have hexplored := hp size _ tries us (Place.settled_skip _) hinner.skip hfits
    (Tries.upTo_of_lt (Nat.lt_of_le_of_lt htries hlt))
  generalize hr : p (place.behind t.lexeme.chars).skip tries = r at hexplored
  cases hexplored with
  | @operand parts next ms rest tries' hus hnext hlt' hbalanced hpasses hbeyond htries' =>
    have hle := next.offset_le_skip
    by_cases hclose : ∃ u vs, rest = u :: vs ∧ u.lexeme = .closeParen
    · obtain ⟨u, rest, rfl, hu⟩ := hclose
      obtain ⟨-, hlongest', hbehind⟩ := next.settled_skip.shows_cons hnext.skip
      have hlt'' := Place.offset_lt_behind hlongest'
      have hplace := htries'.place_le
      rw [lexemes_cons, hu] at hpasses
      rw [enclosed_matched hsettled hshows ht hr hnext hu]
      exact .closed hus hu hbehind (by omega) hbalanced hpasses (by omega)
    · have hclose : ∀ u vs, rest = u :: vs → ¬u.lexeme = .closeParen :=
        fun u vs hrest hu => hclose ⟨u, vs, hrest, hu⟩
      have hrules : signRulesUpTo n = (Stop.operatorMissing true).tried := by
        rcases hn with rfl | rfl <;> rfl
      rw [hrules] at htries'
      obtain rfl := htries'.eq (by decide)
      rw [enclosed_unclosed hsettled hshows ht hr hnext hclose]
      refine .unclosed hus (hpasses.blocks ?_) hnext.skip next.settled_skip (by omega)
      intro l ls hls
      obtain ⟨u, vs, rfl, rfl, -⟩ := List.map_eq_cons_iff.mp hls
      exact ⟨hclose u vs rfl, hbeyond u vs rfl⟩
  | lacking hlacks htries' =>
    have hrules : operandRules n = (Stop.operandMissing false).tried := by
      rcases hn with rfl | rfl <;> rfl
    rw [hrules] at htries'
    obtain rfl := htries'.eq (by decide)
    rw [enclosed_failed hsettled hshows ht hr]
    exact .unclosed (List.nil_append us).symm hlacks.blocks hinner.skip (Place.settled_skip _) hlt
  | @stalled found before after stop last hus hstalls hlast hlastSettled hlt' hshort =>
    have hfailed : enclosed p place tries = (.failed, ⟨last.offset, stop.tried⟩) := by
      cases hshort with
      | failed => exact enclosed_failed hsettled hshows ht hr
      | @matched parts next u vs hnext hlooseness _ =>
        refine enclosed_unclosed hsettled hshows ht hr hnext ?_
        rintro _ _ ⟨⟩ hu
        rw [hu, Lexeme.looseness] at hlooseness
        omega
    rw [hfailed]
    exact .unclosed hus hstalls.blocks hlast hlastSettled (Nat.lt_trans hlt hlt')

/-! ### Primaries -/

theorem tests_identifier : Tests (fun l => ∃ text, l = .name text) [.identifier] Search.identifier :=
  .lexeme _ Lexeme.read_name

theorem tests_number : Tests (fun l => ∃ text, l = .number text) [.number] Search.number :=
  .lexeme _ Lexeme.read_number

theorem balanced_number : Balanced [.number text] :=
  Lexeme.balanced_singleton nofun nofun

theorem balanced_name : Balanced [.name text] :=
  Lexeme.balanced_singleton nofun nofun

/-- Behind a primary any lexeme is looser, but for a parenthesis. -/
theorem beyond_zero : Beyond 0 ts :=
  fun t _ _ => Nat.eq_zero_or_pos t.lexeme.looseness

section Primaries

variable (hsettled : place.Settled) (htries : tries.UpTo place.offset [])
include hsettled htries

/-- Where no name stands, a callee is tried in vain. -/
theorem call_without_name (nested : Search) (hshows : place.Shows size ts)
    (hname : ∀ t us, ts = t :: us → ¬∃ text, t.lexeme = .name text) :
    ∃ tries', Search.call nested place tries = (.failed, tries') ∧
      tries'.UpTo place.offset [.identifier] := by
  obtain ⟨tries', hfailed, hupTo, -⟩ := tests_identifier.failed tries hsettled hshows hname
  have htries' := hupTo _ htries
  refine ⟨tries', ?_, htries'⟩
  simp only [Search.call, Search.phrase, Search.named, Search.andThen, hfailed]
  rw [htries.note_single htries']

/-- Where neither a name nor a number stands, only parentheses are left to be tried. -/
theorem primary_without_lexeme (nested : Search) (hshows : place.Shows size ts)
    (hname : ∀ t us, ts = t :: us → ¬∃ text, t.lexeme = .name text)
    (hnumber : ∀ t us, ts = t :: us → ¬∃ text, t.lexeme = .number text) :
    ∃ tries', Search.primary nested place tries = enclosed nested place tries' ∧
      tries'.UpTo place.offset (operandRules 0) := by
  obtain ⟨tries₁, hcall, htries₁⟩ := call_without_name hsettled htries nested hshows hname
  obtain ⟨tries₂, hfailed, hupTo, -⟩ := tests_number.failed tries₁ hsettled hshows hnumber
  obtain ⟨tries₃, hfailed', hupTo', -⟩ := tests_identifier.failed tries₂ hsettled hshows hname
  refine ⟨tries₃, ?_, hupTo' _ (hupTo _ htries₁)⟩
  simp only [Search.primary, Search.orElse, hcall, hfailed, hfailed']
  rfl

theorem explored_number (hshows : place.Shows size (t :: us)) (ht : t.lexeme = .number text)
    (hfits : Fits k (lexemes (t :: us))) :
    Explored size 0 place (t :: us) (Search.primary nested place tries) := by
  obtain ⟨-, hlongest, hbehind⟩ := hsettled.shows_cons hshows
  have hname : ∀ u vs, t :: us = u :: vs → ¬∃ text, u.lexeme = .name text := by
    rintro _ _ ⟨⟩ ⟨_, hname⟩
    rw [ht] at hname
    cases hname
  obtain ⟨tries', hcall, htries'⟩ := call_without_name hsettled htries nested hshows hname
  have hmatched : Search.number place tries' = _ :=
    Search.lexeme_matched Lexeme.read_number hsettled hshows ⟨text, ht⟩
  obtain ⟨value, hvalue⟩ := hfits.valued text (by rw [lexemes_cons, ht]; exact List.mem_cons_self)
  have hlt := Place.offset_lt_behind hlongest
  simp only [Search.primary, Search.orElse, hcall, hmatched]
  refine .operand (List.singleton_append (l := us)).symm hbehind hlt ?_ ?_ beyond_zero
    (htries'.further (Nat.lt_of_lt_of_le hlt (Place.offset_le_skip _)))
  · rw [lexemes_cons, ht]
    exact balanced_number
  · rw [lexemes_cons, ht]
    exact passes_number hvalue

end Primaries

section Names

variable (hsettled : place.Settled) (hshows : place.Shows size (t :: us)) (ht : t.lexeme = .name text)
include hsettled hshows ht

theorem identifier_matched :
    Search.identifier place tries =
      (.matched [.lexeme .identifier t.lexeme.chars] (place.behind t.lexeme.chars), tries) :=
  Search.lexeme_matched Lexeme.read_name hsettled hshows ⟨text, ht⟩

theorem call_matched {tries' : Tries}
    (h : enclosed (Search.arguments nested) (place.behind t.lexeme.chars).skip tries =
      (.matched parts next, tries')) :
    Search.call nested place tries =
      (.matched [.phrase .call (.lexeme .identifier t.lexeme.chars :: parts)] next, tries') := by
  have hcall : Search.call nested =
      .phrase .call (Search.identifier.andThen (enclosed (Search.arguments nested))) := rfl
  simp only [hcall, Search.phrase, Search.named, Search.andThen, identifier_matched hsettled hshows ht, h,
    List.singleton_append]

theorem call_failed {tries' : Tries}
    (h : enclosed (Search.arguments nested) (place.behind t.lexeme.chars).skip tries =
      (.failed, tries')) :
    Search.call nested place tries = (.failed, tries'.note tries .call place.offset) := by
  have hcall : Search.call nested =
      .phrase .call (Search.identifier.andThen (enclosed (Search.arguments nested))) := rfl
  simp only [hcall, Search.phrase, Search.named, Search.andThen, identifier_matched hsettled hshows ht, h]

/-- A name that is no callee is taken alone. -/
theorem primary_matched {tries' : Tries} (hcall : Search.call nested place tries = (.failed, tries')) :
    ∃ tries'', Search.primary nested place tries =
        (.matched [.lexeme .identifier t.lexeme.chars] (place.behind t.lexeme.chars), tries'') ∧
      (tries'.place ≤ place.offset → tries''.place ≤ place.offset) ∧
      (place.offset < tries'.place → tries'' = tries') := by
  have hnumber : ∀ u vs, t :: us = u :: vs → ¬∃ text, u.lexeme = .number text := by
    rintro _ _ ⟨⟩ ⟨_, hnumber⟩
    rw [ht] at hnumber
    cases hnumber
  obtain ⟨tries'', hfailed, hupTo, hkept⟩ := tests_number.failed tries' hsettled hshows hnumber
  refine ⟨tries'', ?_, fun hplace => (hupTo _ ⟨hplace, rfl⟩).place_le, hkept⟩
  simp only [Search.primary, Search.orElse, hcall, hfailed, identifier_matched hsettled hshows ht]

/-- A name without a parenthesis behind it. -/
theorem explored_name (htries : tries.UpTo place.offset [])
    (hopen : ∀ u vs, us = u :: vs → ¬u.lexeme = .openParen) :
    Explored size 0 place (t :: us) (Search.primary nested place tries) := by
  obtain ⟨-, hlongest, hbehind⟩ := hsettled.shows_cons hshows
  have hcall : Search.call nested place tries = (.failed, tries.note tries .call place.offset) :=
    call_failed hsettled hshows ht (enclosed_unopened (Place.settled_skip _) hbehind.skip hopen)
  obtain ⟨tries', hmatched, hplace, -⟩ := primary_matched hsettled hshows ht hcall
  have hlt := Place.offset_lt_behind hlongest
  have hlt' := Nat.lt_of_lt_of_le hlt (Place.offset_le_skip _)
  have hnoted : (tries.note tries .call place.offset).UpTo place.offset [.call] := htries.note_self
  rw [hmatched]
  refine .operand (List.singleton_append (l := us)).symm hbehind hlt ?_ ?_ beyond_zero
    (Tries.upTo_of_lt (Nat.lt_of_le_of_lt (hplace hnoted.place_le) hlt'))
  · rw [lexemes_cons, ht]
    exact balanced_name
  · rw [lexemes_cons, ht]
    refine passes_name fun ms hms => ?_
    obtain ⟨u, vs, hus, hu, -⟩ := List.map_eq_cons_iff.mp hms
    exact hopen u vs hus hu

/-- A name with a parenthesis behind it.  If the arguments fail, then the name is taken alone, before the place
    at which they do. -/
theorem explored_call (hnested : Explores j 5 (Search.arguments nested))
    (htries : tries.UpTo place.offset []) (hus : us = u :: vs) (hu : u.lexeme = .openParen)
    (hfits : Fits j (lexemes vs)) :
    Explored size 0 place (t :: us) (Search.primary nested place tries) := by
  subst hus
  obtain ⟨-, hlongest, hbehind⟩ := hsettled.shows_cons hshows
  have hlt := Place.offset_lt_behind hlongest
  have hle := (place.behind t.lexeme.chars).offset_le_skip
  have hplace : tries.place ≤ (place.behind t.lexeme.chars).skip.offset := by
    have := htries.place_le
    omega
  have henclosed := explored_enclosed hnested (.inr rfl) (Place.settled_skip _) hbehind.skip hu hfits hplace
  generalize hr : enclosed (Search.arguments nested) (place.behind t.lexeme.chars).skip tries = r
    at henclosed
  cases henclosed with
  | @closed parts next ms rest v tries' hvs hv hnext hlt' hbalanced hpasses hplace' =>
    have hparts : t :: u :: vs = (t :: u :: (ms ++ [v])) ++ rest := by
      rw [hvs]
      simp
    have hcall := call_matched hsettled hshows ht hr
    simp only [Search.primary, Search.orElse, hcall]
    refine .operand hparts hnext (by omega) ?_ ?_ beyond_zero
      (Tries.upTo_of_lt (Nat.lt_of_lt_of_le hplace' next.offset_le_skip))
    · simp only [lexemes_cons, lexemes_append, ht, hu, hv]
      exact balanced_name.append hbalanced.enclosed
    · simp only [lexemes_cons, lexemes_append, ht, hu, hv]
      exact hpasses.call
  | @unclosed before after stop last hvs hblocks hlast hlastSettled hlt' =>
    subst hvs
    have hparts : t :: u :: (before ++ after) = (t :: u :: before) ++ after := rfl
    have hcall := call_failed hsettled hshows ht hr
    rw [Tries.note_of_lt (by show place.offset < last.offset; omega)] at hcall
    obtain ⟨tries', hmatched, -, hkept⟩ := primary_matched hsettled hshows ht hcall
    obtain rfl := hkept (by show place.offset < last.offset; omega)
    rw [hmatched]
    refine .stalled hparts ?_ hlast hlastSettled (by omega)
      (.matched hbehind (by rw [hu, Lexeme.looseness]) hlt')
    simp only [lexemes_cons, ht, hu]
    exact hblocks.call

end Names

/-- An expression in parentheses. -/
theorem explored_group (hnested : Explores j 4 nested) (hsettled : place.Settled)
    (htries : tries.UpTo place.offset []) (hshows : place.Shows size (t :: us))
    (ht : t.lexeme = .openParen) (hfits : Fits j (lexemes us)) :
    Explored size 0 place (t :: us) (Search.primary nested place tries) := by
  obtain ⟨tries₁, hprimary, htries₁⟩ := primary_without_lexeme hsettled htries nested hshows
    (by rintro _ _ ⟨⟩ ⟨_, hname⟩; rw [ht] at hname; cases hname)
    (by rintro _ _ ⟨⟩ ⟨_, hnumber⟩; rw [ht] at hnumber; cases hnumber)
  have henclosed := explored_enclosed hnested (.inl rfl) hsettled hshows ht hfits htries₁.place_le
  rw [hprimary]
  generalize enclosed nested place tries₁ = r at henclosed
  cases henclosed with
  | @closed parts next ms rest v tries' hus hv hnext hlt hbalanced hpasses hplace =>
    have hparts : t :: us = (t :: (ms ++ [v])) ++ rest := by
      rw [hus]
      simp
    refine .operand hparts hnext hlt ?_ ?_ beyond_zero
      (Tries.upTo_of_lt (Nat.lt_of_lt_of_le hplace next.offset_le_skip))
    · simp only [lexemes_cons, lexemes_append, ht, hv]
      exact hbalanced.enclosed
    · simp only [lexemes_cons, lexemes_append, ht, hv]
      exact hpasses.group
  | @unclosed before after stop last hus hblocks hlast hlastSettled hlt =>
    subst hus
    refine .stalled (List.cons_append ..).symm ?_ hlast hlastSettled hlt .failed
    rw [lexemes_cons, ht]
    exact hblocks.group

/-- Where no operand starts, all that a primary may be is tried in vain. -/
theorem explored_lacking (hsettled : place.Settled) (htries : tries.UpTo place.offset [])
    (hshows : place.Shows size ts)
    (h : ∀ t us, ts = t :: us → (¬∃ text, t.lexeme = .name text) ∧
      (¬∃ text, t.lexeme = .number text) ∧ ¬t.lexeme = .openParen) :
    Explored size 0 place ts (Search.primary nested place tries) := by
  obtain ⟨tries', hprimary, htries'⟩ := primary_without_lexeme hsettled htries nested hshows
    (fun t us hts => (h t us hts).1) (fun t us hts => (h t us hts).2.1)
  rw [hprimary, enclosed_unopened hsettled hshows fun t us hts => (h t us hts).2.2]
  refine .lacking (fun context => ?_) htries'
  rcases ts with _ | ⟨⟨l, start⟩, us⟩
  · rfl
  obtain ⟨hname, hnumber, hopen⟩ := h _ _ rfl
  cases l with
  | name text => exact absurd ⟨text, rfl⟩ hname
  | number text => exact absurd ⟨text, rfl⟩ hnumber
  | openParen => exact absurd rfl hopen
  | _ => rfl

/-- **Primaries.**  A name, a number, a parenthesis, or no operand at all. -/
theorem explores_primary (hnested : ∀ j, k = j + 1 → Explores j 4 nested) :
    Explores k 0 (Search.primary nested) := by
  intro size place tries ts hsettled hshows hfits htries
  rcases ts with _ | ⟨t, us⟩
  · exact explored_lacking hsettled htries hshows nofun
  cases ht : t.lexeme with
  | number text => exact explored_number hsettled htries hshows ht hfits
  | name text =>
    rw [lexemes_cons, ht] at hfits
    have hfits' := hfits.tail nofun nofun
    by_cases hopen : ∃ u vs, us = u :: vs ∧ u.lexeme = .openParen
    · obtain ⟨u, vs, rfl, hu⟩ := hopen
      rw [lexemes_cons, hu] at hfits'
      obtain ⟨j, hj, hinside⟩ := hfits'.inside
      have harguments : Explores j 5 (Search.arguments nested) :=
        (hnested j hj).chain separates_comma (by decide) nofun
      exact explored_call hsettled hshows ht harguments htries rfl hu hinside
    · exact explored_name hsettled hshows ht htries fun u vs hus hu => hopen ⟨u, vs, hus, hu⟩
  | openParen =>
    rw [lexemes_cons, ht] at hfits
    obtain ⟨j, hj, hinside⟩ := hfits.inside
    exact explored_group (hnested j hj) hsettled htries hshows ht hinside
  | _ =>
    refine explored_lacking hsettled htries hshows ?_
    rintro _ _ ⟨⟩
    simp [ht]

/-! ### Expressions -/

/-- The rules from the primary up to the expression. -/
theorem explores_expressionOver (hprimary : Explores k 0 (Search.primary nested)) :
    Explores k 4 (Search.expressionOver nested) := by
  have hpower : Explores k 1 (Search.power nested) :=
    hprimary.chain separates_caret (by decide) fun _ => rfl
  have hproduct : Explores k 2 (Search.product nested) :=
    hpower.chain separates_multiplicative (by decide) nofun
  have hsum : Explores k 3 (Search.sum nested) :=
    hproduct.chain separates_additive (by decide) nofun
  exact hsum.chain separates_equals (by decide) nofun

/-- **Expressions.**  Levels that are enough for the parentheses are enough to explore. -/
theorem explores_expression (levels : Nat) : Explores levels 4 (Search.expression levels) := by
  induction levels with
  | zero => exact explores_expressionOver (explores_primary nofun)
  | succ levels ih =>
    refine explores_expressionOver (explores_primary fun j hj => ?_)
    obtain rfl := Nat.succ.inj hj
    exact ih

/-! ### Lines -/

/-- Where a reader stops, a run ends. -/
theorem run_of_stops {s s' : State} {before after : List Token} {stop : Stop}
    (hreach : s.Reaches (lexemes before) s') (hstops : s'.Stops (lexemes after) stop) :
    run s (before ++ after) = .error ⟨stop, after.head?⟩ := by
  refine run_eq_error_iff.mpr ⟨before, after, s', rfl, hreach, rfl, ?_⟩
  cases after <;> exact hstops

theorem Rejection.offset_eq (line : String) (r : Rejection) :
    r.offset line = (r.token.map Token.start).getD line.utf8ByteSize := by
  rcases r with ⟨stop, _ | t⟩ <;> rfl

/-- A reader that stops at a place stops at its byte. -/
theorem Rejection.offset_of_shows {line : String} {stop : Stop} (hsettled : place.Settled)
    (hshows : place.Shows line.utf8ByteSize ts) :
    (⟨stop, ts.head?⟩ : Rejection).offset line = place.offset := by
  rw [Rejection.offset_eq, hsettled.offset_eq hshows]

/-- The end of the line is tried in vain where a token stands. -/
theorem endOfInput_failed (hshows : place.Shows size (t :: us)) :
    Search.endOfInput place tries = (.failed, tries.note tries .endOfInput place.offset) := by
  obtain ⟨c, cs, hrest⟩ := List.exists_cons_of_length_pos (Nat.zero_lt_of_lt hshows.length_le)
  simp only [Search.endOfInput, Search.named, hrest]

section Lines

variable {line : String} {r : Rejection} (hlex : Token.Lexes line ts)
variable (hfits : Fits line.length (lexemes ts))
include hlex hfits

/-- An expression up to the end of the line is not found where the reader stops, and the tries tell why. -/
theorem explored_line (hread : read ts = .error r) :
    ∃ tries, ((Search.expression line.length).andThen Search.endOfInput) (Place.start line).skip .none =
      (.failed, tries) ∧ tries.note .none .statement 0 = ⟨r.offset line, r.stop.tried⟩ := by
  have hshows := (Place.shows_start hlex).skip
  have hsettled := (Place.start line).settled_skip
  generalize (Place.start line).skip = place at hshows hsettled
  have hexplored := explores_expression line.length _ place .none ts hsettled hshows hfits Tries.upTo_none
  generalize hr : Search.expression line.length place .none = found at hexplored
  cases hexplored with
  | @operand parts next ms rest tries hts hnext hlt hbalanced hpasses hbeyond htries =>
    subst hts
    obtain ⟨s, hreach, hresting⟩ := hpasses ⟨.empty, []⟩ (admits_of_lt (by decide))
    cases rest with
    | nil =>
      -- a line that ends here is read
      obtain ⟨t, hfinish⟩ := hresting.finish
      have hok : read (ms ++ []) = .ok t :=
        run_eq_ok_iff.mpr ⟨s, by rwa [List.append_nil], hfinish⟩
      rw [hread] at hok
      cases hok
    | cons u us =>
      have hstops : s.Stops (lexemes (u :: us)) (.operatorMissing false) :=
        hresting.unfinished (hbeyond u us rfl)
      obtain rfl := Except.error.inj (hread.symm.trans (run_of_stops hreach hstops))
      have hend : Search.endOfInput next.skip tries = _ := endOfInput_failed hnext.skip
      have hle := next.offset_le_skip
      have hnoted : (tries.note tries .endOfInput next.skip.offset).UpTo next.skip.offset
          (Stop.operatorMissing false).tried := htries.note_self
      refine ⟨tries.note tries .endOfInput next.skip.offset, by simp only [Search.andThen, hr, hend], ?_⟩
      rw [hnoted.eq (by decide), Rejection.offset_of_shows next.settled_skip hnext.skip]
      exact Tries.note_of_lt (by show 0 < next.skip.offset; omega)
  | @lacking tries hlacks htries =>
    have hstops : (State.operand ⟨.empty, []⟩).Stops (lexemes ts) (.operandMissing false) :=
      hlacks ⟨.empty, []⟩
    have hstopped : run (.operand ⟨.empty, []⟩) ([] ++ ts) = _ := run_of_stops .refl hstops
    obtain rfl := Except.error.inj (hread.symm.trans hstopped)
    refine ⟨tries, by simp only [Search.andThen, hr], ?_⟩
    rw [Rejection.offset_of_shows hsettled hshows, htries.eq operandRules_ne_nil]
    -- at the start of the line the one rule tried says more than the whole statement
    rcases Nat.eq_zero_or_pos place.offset with hzero | hpos
    · rw [hzero]
      rfl
    · exact Tries.note_of_lt hpos
  | @stalled found before after stop last hts hstalls hlast hlastSettled hlt hshort =>
    subst hts
    obtain ⟨s, hreach, hstops⟩ := hstalls ⟨.empty, []⟩ (admits_of_lt (by decide))
    obtain rfl := Except.error.inj (hread.symm.trans (run_of_stops hreach hstops))
    refine ⟨⟨last.offset, stop.tried⟩, ?_, ?_⟩
    · cases hshort with
      | failed => simp only [Search.andThen, hr]
      | @matched parts next u us hnext _ hlt' =>
        have hend : Search.endOfInput next.skip ⟨last.offset, stop.tried⟩ = _ :=
          endOfInput_failed hnext.skip
        rw [Tries.note_of_lt hlt'] at hend
        simp only [Search.andThen, hr, hend]
    · rw [Rejection.offset_of_shows hlastSettled hlast]
      exact Tries.note_of_lt (Nat.zero_lt_of_lt hlt)

/-- **Rejected lines.**  The furthest byte at which the search of a line tries rules in vain is the one at which
    the reader stops, and the rules tried there are those that its stop tells. -/
theorem search_eq_error (hread : read ts = .error r) :
    search line = .error ⟨r.offset line, r.stop.tried⟩ := by
  obtain ⟨tries, hfailed, hnoted⟩ := explored_line hlex hfits hread
  have hstart := Search.startOfInput_andThen ((Search.expression line.length).andThen Search.endOfInput)
    line .none
  rw [hfailed] at hstart
  simp only [search, Search.statement, Search.phrase, Search.named, hstart]
  rw [← hnoted]
  rfl

/-- **Accepted lines.**  The search of a line that the reader gives a tree leaves parts with this tree. -/
theorem search_eq_ok {t : Tree} (hread : read ts = .ok t) :
    ∃ parts, search line = .ok parts ∧ treeOf parts = .ok t := by
  have hderives := read_eq_ok_iff.mp hread
  rcases Matcher.statement_cases hfits with ⟨parts, u, hmatched, htree, hderives'⟩ | ⟨-, hnone⟩
  · obtain rfl := hderives'.unique hderives
    have hfollows := Search.follows_statement line.length hlex
    generalize hr : Search.statement line.length (.start line) .none = r at hfollows
    obtain ⟨found, tries⟩ := r
    generalize ha : Matcher.statement line.length (lexemes ts) = a at hfollows
    rw [hmatched] at ha
    cases hfollows with
    | matched _ _ _ =>
      obtain ⟨rfl, -⟩ := Attempt.matched.inj ha
      exact ⟨parts, by rw [search, hr], htree⟩
    | _ => cases ha
  · exact absurd hderives (hnone t)

end Lines

end ExprForest.Statement

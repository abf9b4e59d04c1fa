import ExprForest.Proofs.Lexical.Nesting
import ExprForest.Proofs.Statement.DeadEnds
import ExprForest.Statement.Descent

namespace ExprForest.Statement

/-!
# Descent decides statements

The matchers of `ExprForest.Statement.Descent` decide, for each category of the grammar, what stands at the
head of a list of lexemes.  A match may stop early, before a sign whose right side fails, or leave a name
whose arguments fail; but then the lexemes are barren, and no other choice would have led to a tree.

* `Fits` — lexemes that some levels are enough for;
* `Attempt.Decides`, `Matcher.Matches` — what an attempt tells about the lexemes, and a matcher that always
  tells;
* `Matcher.matches_chain`, `Matcher.matches_primary` — chains and primaries;
* `Matcher.matches_expression` — by induction on the levels, all expressions;
* `Matcher.statement_cases` — a line either has a tree, which its parts give, or it fails.
-/

variable {levels k n : Nat} {c d : Category} {l : Lexeme} {ls ms bs rest : List Lexeme} {t : Tree}
variable {part : Part} {parts : List Part}

/-! ### Enough levels -/

/-- As many parentheses are open behind a phrase as before it. -/
theorem Derives.balanced {c : Category} (h : Derives c ls t) : Lexeme.Balanced ls := by
  intro depth
  induction h generalizing depth <;>
    simp_all [Lexeme.depthAfter, List.foldl_append]

/-- Lexemes in which parentheses nest at most `k` deep, counted from some depth on, and in which every
    number has a value. -/
structure Fits (k : Nat) (ls : List Lexeme) : Prop where
  room : ∃ depth, Lexeme.peak depth ls ≤ depth + k
  valued : ∀ text, .number text ∈ ls → ∃ value, Decimal.read? text = some value

namespace Fits

/-- Behind lexemes that close what they open. -/
theorem behind (h : Fits k (ms ++ ls)) (hms : Lexeme.Balanced ms) : Fits k ls := by
  obtain ⟨⟨depth, hroom⟩, hvalued⟩ := h
  refine ⟨⟨depth, ?_⟩, fun text hmem => hvalued text (List.mem_append_right ms hmem)⟩
  rw [Lexeme.peak_append, hms depth] at hroom
  exact Nat.le_trans (Nat.le_max_right _ _) hroom

/-- Behind a lexeme that is no parenthesis. -/
theorem tail (h : Fits k (l :: ls)) (hopen : l ≠ .openParen) (hclose : l ≠ .closeParen) :
    Fits k ls := by
  obtain ⟨⟨depth, hroom⟩, hvalued⟩ := h
  refine ⟨⟨depth, ?_⟩, fun text hmem => hvalued text (List.mem_cons_of_mem l hmem)⟩
  have hdepth : l.depthAfter depth = depth := by
    cases l <;> first | rfl | contradiction
  rw [Lexeme.peak, hdepth] at hroom
  exact Nat.le_trans (Nat.le_max_right _ _) hroom

/-- An opening parenthesis takes one level. -/
theorem inside (h : Fits k (.openParen :: ls)) : ∃ j, k = j + 1 ∧ Fits j ls := by
  obtain ⟨⟨depth, hroom⟩, hvalued⟩ := h
  rw [Lexeme.peak, Nat.max_le] at hroom
  have hinside : Lexeme.peak (depth + 1) ls ≤ depth + k := hroom.2
  have hlevel := Lexeme.le_peak (depth + 1) ls
  refine ⟨k - 1, by omega, ⟨depth + 1, by omega⟩, ?_⟩
  exact fun text hmem => hvalued text (List.mem_cons_of_mem _ hmem)

end Fits

/-! ### Attempts -/

/-- How loosely a category binds: an operand of it ends before a sign that is looser. -/
def Category.looseness : Category → Nat
  | primary => 0
  | power => 1
  | product => 2
  | sum => 3
  | expression => 4
  | arguments => 5

/-- Whether an attempt decides what stands at the head of some lexemes: nothing of the category, or an
    operand of it with its tree, behind which the line goes on with something looser, unless it goes
    nowhere. -/
inductive Attempt.Decides (c : Category) (ls : List Lexeme) : Attempt → Prop where
  | failed :
      Barren ls →
      Decides c ls .failed
  | matched {part : Part} {ms rest : List Lexeme} {t : Tree} :
      ls = ms ++ rest → Stands c part ms t → Ends c.looseness rest ∨ Barren ls →
      Decides c ls (.matched [part] rest)

theorem Attempt.Decides.cases {a : Attempt} (h : a.Decides c ls) :
    (a = .failed ∧ Barren ls) ∨
      ∃ part ms rest t, a = .matched [part] rest ∧ ls = ms ++ rest ∧ Stands c part ms t ∧
        (Ends c.looseness rest ∨ Barren ls) := by
  cases h with
  | failed hbarren => exact .inl ⟨rfl, hbarren⟩
  | matched hls hpart hends => exact .inr ⟨_, _, _, _, rfl, hls, hpart, hends⟩

namespace Matcher

variable {p nested : Matcher} {rule : Rule}

/-- Whether a matcher always decides what stands at the head of lexemes that `k` levels are enough for. -/
def Matches (k : Nat) (c : Category) (p : Matcher) : Prop :=
  ∀ ls, Fits k ls → (p ls).Decides c ls

/-- The signs of one looseness. -/
def separator (n : Nat) : Matcher
  | [] => .failed
  | l :: ls => if l.looseness = n then .matched l.signs ls else .failed

theorem sign_caret : sign .exponent .caret = separator 1 := by
  funext ls
  rcases ls with _ | ⟨_ | _, ls⟩ <;> rfl

theorem sign_multiplicative :
    (sign .multiply (.multiplicative .times)).orElse (sign .divide (.multiplicative .over)) =
      separator 2 := by
  funext ls
  rcases ls with _ | ⟨_ | _ | _ | _ | ⟨_ | _⟩, ls⟩ <;> rfl

theorem sign_additive :
    (sign .add (.additive .plus)).orElse (sign .subtract (.additive .minus)) = separator 3 := by
  funext ls
  rcases ls with _ | ⟨_ | _ | _ | ⟨_ | _⟩, ls⟩ <;> rfl

theorem sign_equals : sign .assign .equals = separator 4 := by
  funext ls
  rcases ls with _ | ⟨_ | _, ls⟩ <;> rfl

theorem silent_comma : silent .comma = separator 5 := by
  funext ls
  rcases ls with _ | ⟨_ | _, ls⟩ <;> rfl

/-- **Repetition.**  Behind an operand, further ones are matched up to something that is looser still,
    unless the line goes nowhere. -/
theorem manyFrom_separator {room : List Lexeme} (hp : Matches k c p) (hc : c.looseness < 5)
    (hroom : ls.length ≤ room.length) (hfits : Fits k ls) :
    ∃ parts ms rest,
      manyFrom ((separator (c.looseness + 1)).andThen p) room ls = .matched parts rest ∧
        ls = ms ++ rest ∧ Tail (c.looseness + 1) c parts ms ∧
        (Ends c.looseness ls →
          Ends (c.looseness + 1) rest ∨ ∀ before, Barren (before ++ ls)) := by
  induction room generalizing ls with
  | nil =>
    obtain rfl := List.eq_nil_of_length_eq_zero (Nat.le_zero.mp hroom)
    exact ⟨[], [], [], rfl, rfl, .nil, fun _ => .inl nofun⟩
  | cons _ room ih =>
    rcases ls with _ | ⟨l, ls⟩
    · exact ⟨[], [], [], rfl, rfl, .nil, fun _ => .inl nofun⟩
    by_cases hl : l.looseness = c.looseness + 1
    · have hsign : separator (c.looseness + 1) (l :: ls) = .matched l.signs ls := if_pos hl
      have hopen : l ≠ .openParen := by
        rintro rfl
        cases hl
      have hclose : l ≠ .closeParen := by
        rintro rfl
        simp only [Lexeme.looseness] at hl
        omega
      have hbehind := hfits.tail hopen hclose
      rcases (hp ls hbehind).cases with
        ⟨hfailed, hbarren⟩ | ⟨part, ms, rest, t, hmatched, rfl, hpart, hends⟩
      · -- without an operand the sign stays, and nothing can be made of it
        refine ⟨[], [], l :: ls, ?_, rfl, .nil, fun _ => .inr ?_⟩
        · simp only [manyFrom, andThen, hsign, hfailed]
        · exact hbarren.behind (by omega)
      · obtain ⟨parts, ms', rest, hmany, rfl, htail, hgoes⟩ :=
          ih (by simp at hroom; omega) (hbehind.behind hpart.derives.balanced)
        refine ⟨l.signs ++ part :: parts, l :: (ms ++ ms'), rest, ?_, by simp,
          .cons hl hpart htail, fun _ => ?_⟩
        · simp only [manyFrom, andThen, hsign, hmatched, hmany, List.append_assoc,
            List.singleton_append]
        · rcases hends with hends | hbarren
          · refine (hgoes hends).imp_right fun hbarren before => ?_
            simpa using hbarren (before ++ l :: ms)
          · exact .inr (hbarren.behind (by omega))
    · have hsign : separator (c.looseness + 1) (l :: ls) = .failed := if_neg hl
      refine ⟨[], [], l :: ls, ?_, rfl, .nil, fun hends => .inl ?_⟩
      · simp only [manyFrom, andThen, hsign]
      · rintro _ _ ⟨⟩
        have := hends l ls rfl
        omega

/-- **Chains.**  If `p` decides a category, then `p` with signs between decides the category that is one
    looser, as far as the parts of such a chain have the tree of its lexemes. -/
theorem matches_chain (hp : Matches k c p) (hc : c.looseness < 5)
    (hd : d.looseness = c.looseness + 1)
    (hchain : ∀ {part ms t parts ls}, Stands c part ms t → Tail (c.looseness + 1) c parts ls →
      ∃ u, Stands d (.phrase rule (part :: parts)) (ms ++ ls) u) :
    Matches k d (chain rule p (separator (c.looseness + 1))) := by
  intro ls hfits
  rcases (hp ls hfits).cases with
    ⟨hfailed, hbarren⟩ | ⟨part, ms, rest, t, hmatched, rfl, hpart, hends⟩
  · simp only [chain, phrase, andThen, hfailed]
    exact .failed hbarren
  · obtain ⟨parts, ms', rest, hmany, rfl, htail, hgoes⟩ :=
      manyFrom_separator hp hc (Nat.le_refl _) (hfits.behind hpart.derives.balanced)
    obtain ⟨u, hu⟩ := hchain hpart htail
    have hphrase : chain rule p (separator (c.looseness + 1)) (ms ++ (ms' ++ rest)) =
        .matched [.phrase rule (part :: parts)] rest := by
      simp only [chain, phrase, andThen, many] at hmany ⊢
      simp only [hmatched, hmany, List.singleton_append]
    rw [hphrase]
    refine .matched (List.append_assoc ms ms' rest).symm hu ?_
    rw [hd]
    rcases hends with hends | hbarren
    · exact (hgoes hends).imp_right fun hbarren => hbarren ms
    · exact .inr hbarren

/-! ### Primaries -/

/-- Only a parenthesis can go on with a primary. -/
theorem ends_primary (h : ∀ bs, rest = .openParen :: bs → Barren ls) :
    Ends Category.primary.looseness rest ∨ Barren ls := by
  by_cases hopen : ∃ bs, rest = .openParen :: bs
  · obtain ⟨bs, hbs⟩ := hopen
    exact .inr (h bs hbs)
  · refine .inl fun l bs hbs => ?_
    cases l with
    | openParen => exact absurd ⟨bs, hbs⟩ hopen
    | _ => exact Nat.succ_pos _

/-- A number is decided by its lexeme. -/
theorem primary_number {text : List Char} (hfits : Fits k (.number text :: ls)) :
    (primary nested (.number text :: ls)).Decides .primary (.number text :: ls) := by
  obtain ⟨value, hvalue⟩ := hfits.valued text List.mem_cons_self
  have hmatched : primary nested (.number text :: ls) = .matched [.lexeme .number text] ls := rfl
  have hstands : Stands .primary (.lexeme .number text) [.number text] (.number value) :=
    ⟨by rw [Part.tree, hvalue], rfl, .number hvalue⟩
  rw [hmatched]
  refine .matched rfl hstands (ends_primary ?_)
  -- a number is no callee
  rintro bs rfl context
  refine State.refuses_cons fun s hs => ?_
  rw [State.step, hvalue] at hs
  obtain rfl := Except.ok.inj hs
  exact State.refuses_cons fun s hs => by cases hs

/-- What a matcher takes, in parentheses. -/
def enclosed (p : Matcher) : Matcher :=
  (silent .openParen).andThen (p.andThen (silent .closeParen))

theorem silent_self : silent l (l :: ls) = .matched [] ls :=
  if_pos rfl

theorem silent_eq_failed (h : ∀ ms, ls ≠ l :: ms) : silent l ls = .failed := by
  rcases ls with _ | ⟨l', ls⟩
  · rfl
  · exact if_neg fun hl => h ls (by rw [hl])

theorem enclosed_matched (h : p ls = .matched parts (.closeParen :: rest)) :
    enclosed p (.openParen :: ls) = .matched parts rest := by
  simp only [enclosed, andThen, silent_self, h, List.nil_append, List.append_nil]

theorem enclosed_failed (h : p ls = .failed) : enclosed p (.openParen :: ls) = .failed := by
  simp only [enclosed, andThen, silent_self, h]

theorem enclosed_unclosed (h : p ls = .matched parts rest) (hclose : ∀ ls, rest ≠ .closeParen :: ls) :
    enclosed p (.openParen :: ls) = .failed := by
  simp only [enclosed, andThen, silent_self, h, silent_eq_failed hclose]

theorem enclosed_unopened (h : ∀ ms, ls ≠ .openParen :: ms) : enclosed p ls = .failed := by
  simp only [enclosed, andThen, silent_eq_failed h]

/-- A group is decided by the expression inside and the closing parenthesis behind it. -/
theorem primary_openParen (hnested : (nested ls).Decides .expression ls) :
    (primary nested (.openParen :: ls)).Decides .primary (.openParen :: ls) := by
  have hgroup : primary nested (.openParen :: ls) = enclosed nested (.openParen :: ls) := rfl
  rw [hgroup]
  rcases hnested.cases with
    ⟨hfailed, hbarren⟩ | ⟨part, ms, rest, t, hmatched, rfl, hpart, hends⟩
  · rw [enclosed_failed hfailed]
    exact .failed (hbarren.behind (l := .openParen) (by decide) [])
  · by_cases hclose : ∃ bs, rest = .closeParen :: bs
    · obtain ⟨bs, rfl⟩ := hclose
      have hstands : Stands .primary part (.openParen :: ms ++ [.closeParen]) t :=
        ⟨hpart.tree, hpart.operand, .group hpart.derives⟩
      rw [enclosed_matched hmatched]
      refine .matched (by simp) hstands (ends_primary ?_)
      rintro bs rfl
      exact Barren.closeParen_openParen (.openParen :: ms) bs
    · have hclose : ∀ bs, rest ≠ .closeParen :: bs := fun bs hbs => hclose ⟨bs, hbs⟩
      rw [enclosed_unclosed hmatched hclose]
      refine .failed ?_
      rcases hends with hends | hbarren
      · exact .openParen hpart.derives hends hclose
      · exact hbarren.behind (l := .openParen) (by decide) []

/-- A name is decided by itself where it is no callee. -/
theorem primary_name {text : List Char} (hcall : enclosed (arguments nested) ls = .failed)
    (hbarren : ∀ bs, ls = .openParen :: bs → Barren (.name text :: ls)) :
    (primary nested (.name text :: ls)).Decides .primary (.name text :: ls) := by
  have hmatched : primary nested (.name text :: ls) = .matched [.lexeme .identifier text] ls := by
    have hcall' : call nested (.name text :: ls) = .failed := by
      show phrase .call (identifier.andThen (enclosed (arguments nested))) (.name text :: ls) = _
      simp only [phrase, andThen, identifier, hcall]
    simp only [primary, orElse, hcall', number, identifier]
  rw [hmatched]
  exact .matched rfl ⟨rfl, rfl, .name⟩ (ends_primary hbarren)

/-- A call is decided by its arguments and the closing parenthesis behind them.  A name whose arguments
    fail is matched alone, which leads nowhere. -/
theorem primary_call {text : List Char}
    (harguments : (arguments nested bs).Decides .arguments bs) :
    (primary nested (.name text :: .openParen :: bs)).Decides .primary
      (.name text :: .openParen :: bs) := by
  rcases harguments.cases with
    ⟨hfailed, hbarren⟩ | ⟨part, ms, rest, t, hmatched, rfl, hpart, hends⟩
  · exact primary_name (enclosed_failed hfailed) fun _ _ =>
      hbarren.behind (l := .openParen) (by decide) [.name text]
  · by_cases hclose : ∃ bs, rest = .closeParen :: bs
    · obtain ⟨bs, rfl⟩ := hclose
      have hprimary : primary nested (.name text :: .openParen :: (ms ++ .closeParen :: bs)) =
          .matched [.phrase .call [.lexeme .identifier text, part]] bs := by
        have hcall : call nested (.name text :: .openParen :: (ms ++ .closeParen :: bs)) =
            .matched [.phrase .call [.lexeme .identifier text, part]] bs := by
          show phrase .call (identifier.andThen (enclosed (arguments nested))) _ = _
          simp only [phrase, andThen, identifier, enclosed_matched hmatched, List.singleton_append]
        simp only [primary, orElse, hcall]
      rw [hprimary]
      refine .matched (by simp) hpart.call (ends_primary ?_)
      rintro bs rfl
      exact Barren.closeParen_openParen (.name text :: .openParen :: ms) bs
    · have hclose : ∀ bs, rest ≠ .closeParen :: bs := fun bs hbs => hclose ⟨bs, hbs⟩
      refine primary_name (enclosed_unclosed hmatched hclose) fun _ _ => ?_
      rcases hends with hends | hbarren
      · exact .name_openParen hpart.derives hends hclose
      · exact hbarren.behind (l := .openParen) (by decide) [.name text]

/-! ### Rules -/

theorem matches_arguments (hnested : Matches k .expression nested) :
    Matches k .arguments (arguments nested) := by
  rw [arguments, silent_comma]
  exact matches_chain hnested (by decide) rfl Stands.arguments

theorem matches_primary (hnested : ∀ j, k = j + 1 → Matches j .expression nested) :
    Matches k .primary (primary nested) := by
  intro ls hfits
  rcases ls with _ | ⟨l, ls⟩
  · exact .failed fun context s' hreach u hu => by cases hreach; cases hu
  cases l with
  | number text => exact primary_number hfits
  | name text =>
    by_cases hopen : ∃ bs, ls = .openParen :: bs
    · obtain ⟨bs, rfl⟩ := hopen
      obtain ⟨j, hj, hinside⟩ := (hfits.tail nofun nofun).inside
      exact primary_call (matches_arguments (hnested j hj) bs hinside)
    · have hopen : ∀ bs, ls ≠ .openParen :: bs := fun bs hbs => hopen ⟨bs, hbs⟩
      exact primary_name (enclosed_unopened hopen) fun bs hbs => absurd hbs (hopen bs)
  | openParen =>
    obtain ⟨j, hj, hinside⟩ := hfits.inside
    exact primary_openParen (hnested j hj ls hinside)
  | _ => exact .failed fun context => State.refuses_cons nofun

/-- The rules from the primary up to the expression. -/
theorem matches_expressionOver (hprimary : Matches k .primary (primary nested)) :
    Matches k .expression (expressionOver nested) := by
  have hpower : Matches k .power (power nested) := by
    rw [power, sign_caret]
    exact matches_chain hprimary (by decide) rfl Stands.power
  have hproduct : Matches k .product (product nested) := by
    rw [product, sign_multiplicative]
    exact matches_chain hpower (by decide) rfl Stands.product
  have hsum : Matches k .sum (sum nested) := by
    rw [sum, sign_additive]
    exact matches_chain hproduct (by decide) rfl Stands.sum
  rw [expressionOver, sign_equals]
  exact matches_chain hsum (by decide) rfl Stands.expression

/-- **Expressions.**  Levels that are enough for the parentheses are enough to decide. -/
theorem matches_expression (levels : Nat) : Matches levels .expression (expression levels) := by
  induction levels with
  | zero => exact matches_expressionOver (matches_primary nofun)
  | succ levels ih =>
    refine matches_expressionOver (matches_primary fun j hj => ?_)
    obtain rfl := Nat.succ.inj hj
    exact ih

/-- **Lines.**  The parts of a line give its tree, or it has none. -/
theorem statement_cases (hfits : Fits levels ls) :
    (∃ parts t, statement levels ls = .matched parts [] ∧ treeOf parts = .ok t ∧
      Derives .expression ls t) ∨
      statement levels ls = .failed ∧ ∀ t, ¬Derives .expression ls t := by
  rcases (matches_expression levels ls hfits).cases with
    ⟨hfailed, hbarren⟩ | ⟨part, ms, rest, t, hmatched, rfl, hpart, hends⟩
  · refine .inr ⟨?_, fun t => hbarren.not_derives⟩
    simp only [statement, phrase, andThen, hfailed]
  · rcases rest with _ | ⟨l, rest⟩
    · left
      refine ⟨[.phrase .statement [part, .lexeme .endOfInput []]], t, ?_, hpart.tree, ?_⟩
      · simp only [statement, phrase, andThen, hmatched, endOfInput, List.singleton_append]
      · rw [List.append_nil]
        exact hpart.derives
    · right
      refine ⟨by simp only [statement, phrase, andThen, hmatched, endOfInput], fun u => ?_⟩
      rcases hends with hends | hbarren
      · exact hpart.derives.not_derives_append hends
      · exact hbarren.not_derives

end Matcher

end ExprForest.Statement

import ExprForest.Proofs.Forest.FailureKinds

namespace ExprForest

/-!
# How deep the descent goes

The rules of the statement grammar, entered as deep as they like.  Whoever enters an expression stands
behind as many open parentheses as expressions are entered around it, since a match takes up a closing
parenthesis for each opening one, also where the match is given back afterwards.  Hence the count of the
lexical pass bounds the descent, and what stands beyond the bound never matters.

* `Lexeme.Within` — lexemes that open a limited number of levels;
* `Statement.Matcher.Agree` — two matchers that cannot be told apart on lexemes of so many levels;
* `Statement.Matcher.agree_within` — so are the rules over any two matchers for what is nested deeper;
* `Statement.Matcher.unbounded` — the rules without a bound, the only solution of their recursion
  (`Statement.Matcher.eq_expressionOver_iff`);
* `Statement.descent_keeps_to_limit` — put together for the tokens of a line.
-/

variable {k n depth : Nat} {l : Lexeme} {ls ms : List Lexeme}

/-! ### Open parentheses -/

namespace Lexeme

/-- Whether some lexemes open at most `k` levels, counted from some depth on. -/
def Within (k : Nat) (ls : List Lexeme) : Prop :=
  ∃ depth, peak depth ls ≤ depth + k

/-- Behind balanced lexemes. -/
theorem Within.behind (h : Within k (ms ++ ls)) (hms : Balanced ms) : Within k ls := by
  obtain ⟨depth, hpeak⟩ := h
  rw [peak_append, hms depth] at hpeak
  exact ⟨depth, le_trans (le_max_right _ _) hpeak⟩

/-- An opening parenthesis takes one of the levels. -/
theorem Within.inside (h : Within k (openParen :: ls)) : ∃ j, k = j + 1 ∧ Within j ls := by
  obtain ⟨depth, hpeak⟩ := h
  have hinside : peak (depth + 1) ls ≤ depth + k := le_trans (le_max_right _ _) hpeak
  have hlevel := le_peak (depth + 1) ls
  exact ⟨k - 1, by omega, depth + 1, by omega⟩

/-- No list opens more levels than it has lexemes. -/
theorem within_length (ls : List Lexeme) : Within ls.length ls := by
  have hpeak : ∀ depth, peak depth ls ≤ depth + ls.length := by
    induction ls with
    | nil => exact fun depth => le_refl depth
    | cons l ls ih =>
      intro depth
      have hnext : l.depthAfter depth ≤ depth + 1 := by
        unfold depthAfter
        split <;> omega
      have hrest := ih (l.depthAfter depth)
      simp only [peak, List.length_cons]
      omega
  exact ⟨0, hpeak 0⟩

end Lexeme

namespace Statement

open Lexeme (Balanced Within)

/-! ### Attempts that agree -/

/-- Whether two attempts at some lexemes are the same, and either fails or takes up balanced lexemes.
    In particular, neither is given up. -/
inductive Attempt.Agree (ls : List Lexeme) : Attempt → Attempt → Prop where
  | failed :
      Agree ls .failed .failed
  | matched {parts : List Part} {ms rest : List Lexeme} :
      ls = ms ++ rest → Balanced ms →
      Agree ls (.matched parts rest) (.matched parts rest)

namespace Attempt.Agree

variable {a b : Attempt}

theorem cases (h : Agree ls a b) :
    (a = .failed ∧ b = .failed) ∨
      ∃ parts ms rest, a = .matched parts rest ∧ b = .matched parts rest ∧ ls = ms ++ rest ∧
        Balanced ms := by
  cases h with
  | failed => exact .inl ⟨rfl, rfl⟩
  | matched hls hms => exact .inr ⟨_, _, _, rfl, rfl, hls, hms⟩

theorem eq (h : Agree ls a b) : a = b := by
  cases h <;> rfl

theorem ne_tooDeep (h : Agree ls a b) : a ≠ .tooDeep := by
  cases h <;> nofun

end Attempt.Agree

namespace Matcher

variable {p p' q q' : Matcher} {rule : Rule}

/-- Whether two matchers agree on all lexemes that open at most `k` levels. -/
def Agree (k : Nat) (p p' : Matcher) : Prop :=
  ∀ ls, Within k ls → (p ls).Agree ls (p' ls)

namespace Agree

/-! ### Combinations -/

theorem andThen (hp : Agree k p p') (hq : Agree k q q') : Agree k (p.andThen q) (p'.andThen q') := by
  intro ls hls
  rcases (hp ls hls).cases with ⟨h, h'⟩ | ⟨parts, ms, rest, h, h', rfl, hms⟩
  · simp only [Matcher.andThen, h, h']
    exact .failed
  · rcases (hq rest (hls.behind hms)).cases with ⟨hq, hq'⟩ | ⟨more, ms', rest, hq, hq', rfl, hms'⟩
    · simp only [Matcher.andThen, h, h', hq, hq']
      exact .failed
    · simp only [Matcher.andThen, h, h', hq, hq']
      exact .matched (List.append_assoc ms ms' rest).symm (hms.append hms')

/-- The second choice starts where the first one did, whatever that one has entered. -/
theorem orElse (hp : Agree k p p') (hq : Agree k q q') : Agree k (p.orElse q) (p'.orElse q') := by
  intro ls hls
  rcases (hp ls hls).cases with ⟨h, h'⟩ | ⟨parts, ms, rest, h, h', hms, hbalanced⟩
  · simp only [Matcher.orElse, h, h']
    exact hq ls hls
  · simp only [Matcher.orElse, h, h']
    exact .matched hms hbalanced

theorem manyFrom (hp : Agree k p p') (room : List Lexeme) :
    Agree k (Matcher.manyFrom p room) (Matcher.manyFrom p' room) := by
  induction room with
  | nil =>
    intro ls _
    exact .matched rfl Lexeme.balanced_nil
  | cons l room ih =>
    intro ls hls
    rcases (hp ls hls).cases with ⟨h, h'⟩ | ⟨parts, ms, rest, h, h', rfl, hms⟩
    · simp only [Matcher.manyFrom, h, h']
      exact .matched rfl Lexeme.balanced_nil
    · rcases (ih rest (hls.behind hms)).cases with
        ⟨hrest, hrest'⟩ | ⟨more, ms', rest, hrest, hrest', rfl, hms'⟩
      · simp only [Matcher.manyFrom, h, h', hrest, hrest']
        exact .failed
      · simp only [Matcher.manyFrom, h, h', hrest, hrest']
        exact .matched (List.append_assoc ms ms' rest).symm (hms.append hms')

theorem many (hp : Agree k p p') : Agree k p.many p'.many := by
  intro ls hls
  exact hp.manyFrom ls ls hls

theorem phrase (hp : Agree k p p') : Agree k (phrase rule p) (Matcher.phrase rule p') := by
  intro ls hls
  rcases (hp ls hls).cases with ⟨h, h'⟩ | ⟨parts, ms, rest, h, h', hms, hbalanced⟩
  · simp only [Matcher.phrase, h, h']
    exact .failed
  · simp only [Matcher.phrase, h, h']
    exact .matched hms hbalanced

theorem chain (hp : Agree k p p') (hq : Agree k q q') :
    Agree k (chain rule p q) (Matcher.chain rule p' q') :=
  (hp.andThen (hq.andThen hp).many).phrase

/-! ### Lexemes -/

theorem sign (hopen : l ≠ .openParen) (hclose : l ≠ .closeParen) :
    Agree k (sign rule l) (Matcher.sign rule l) := by
  intro ls _
  rcases ls with _ | ⟨l', ls⟩
  · exact .failed
  · by_cases hl : l' = l
    · subst hl
      have hmatched : Matcher.sign rule l' (l' :: ls) = .matched [.lexeme rule l'.chars] ls := if_pos rfl
      rw [hmatched]
      exact .matched rfl (Lexeme.balanced_singleton hopen hclose)
    · have hfailed : Matcher.sign rule l (l' :: ls) = .failed := if_neg hl
      rw [hfailed]
      exact .failed

theorem silent (hopen : l ≠ .openParen) (hclose : l ≠ .closeParen) :
    Agree k (silent l) (Matcher.silent l) := by
  intro ls _
  by_cases hl : ∃ rest, ls = l :: rest
  · obtain ⟨rest, rfl⟩ := hl
    rw [silent_self]
    exact .matched rfl (Lexeme.balanced_singleton hopen hclose)
  · have hl : ∀ rest, ls ≠ l :: rest := fun rest h => hl ⟨rest, h⟩
    rw [silent_eq_failed hl]
    exact .failed

theorem number : Agree k number Matcher.number := by
  intro ls _
  rcases ls with _ | ⟨l, ls⟩
  · exact .failed
  · cases l with
    | number text => exact .matched rfl (Lexeme.balanced_singleton nofun nofun)
    | _ => exact .failed

theorem identifier : Agree k identifier Matcher.identifier := by
  intro ls _
  rcases ls with _ | ⟨l, ls⟩
  · exact .failed
  · cases l with
    | name text => exact .matched rfl (Lexeme.balanced_singleton nofun nofun)
    | _ => exact .failed

theorem endOfInput : Agree k endOfInput Matcher.endOfInput := by
  intro ls _
  rcases ls with _ | ⟨l, ls⟩
  · exact .matched rfl Lexeme.balanced_nil
  · exact .failed

/-- Behind an opening parenthesis one level less is left for the matchers inside.  Where none is left,
    they are not entered. -/
theorem enclosed (hp : ∀ j, k = j + 1 → Agree j p p') : Agree k (enclosed p) (Matcher.enclosed p') := by
  intro ls hls
  by_cases hopen : ∃ rest, ls = .openParen :: rest
  · obtain ⟨inner, rfl⟩ := hopen
    obtain ⟨j, hj, hinner⟩ := hls.inside
    rcases (hp j hj inner hinner).cases with ⟨h, h'⟩ | ⟨parts, ms, rest, h, h', rfl, hms⟩
    · rw [enclosed_failed h, enclosed_failed h']
      exact .failed
    · by_cases hclose : ∃ behind, rest = .closeParen :: behind
      · obtain ⟨behind, rfl⟩ := hclose
        rw [enclosed_matched h, enclosed_matched h']
        exact .matched (by simp) hms.enclosed
      · have hclose : ∀ behind, rest ≠ .closeParen :: behind := fun behind h => hclose ⟨behind, h⟩
        rw [enclosed_unclosed h hclose, enclosed_unclosed h' hclose]
        exact .failed
  · have hopen : ∀ rest, ls ≠ .openParen :: rest := fun rest h => hopen ⟨rest, h⟩
    rw [enclosed_unopened hopen, enclosed_unopened hopen]
    exact .failed

/-! ### Rules -/

theorem arguments (hp : Agree k p p') : Agree k (arguments p) (Matcher.arguments p') :=
  hp.chain (.silent nofun nofun)

theorem primary (hp : ∀ j, k = j + 1 → Agree j p p') : Agree k (primary p) (Matcher.primary p') := by
  have hcall : Agree k (call p) (Matcher.call p') :=
    (identifier.andThen (.enclosed fun j hj => (hp j hj).arguments)).phrase
  exact hcall.orElse (number.orElse (identifier.orElse (.enclosed hp)))

/-- **One level of the rules.**  An expression gives the same over two matchers that agree on what is
    nested one level deeper. -/
theorem expressionOver (hp : ∀ j, k = j + 1 → Agree j p p') :
    Agree k (expressionOver p) (Matcher.expressionOver p') := by
  have hpower : Agree k (power p) (Matcher.power p') := (primary hp).chain (.sign nofun nofun)
  have hproduct : Agree k (product p) (Matcher.product p') := by
    apply hpower.chain
    apply Agree.orElse
    · exact .sign nofun nofun
    · exact .sign nofun nofun
  have hsum : Agree k (sum p) (Matcher.sum p') := by
    apply hproduct.chain
    apply Agree.orElse
    · exact .sign nofun nofun
    · exact .sign nofun nofun
  exact hsum.chain (.sign nofun nofun)

end Agree

/-! ### All levels -/

/-- An expression inside which expressions nest at most `levels` deep by the rules, and `deeper` matches
    those that are nested one level more. -/
def within (deeper : Matcher) : Nat → Matcher
  | 0 => expressionOver deeper
  | levels + 1 => expressionOver (within deeper levels)

/-- Giving up is one way to go on beyond the bound. -/
theorem expression_eq_within (levels : Nat) : expression levels = within (fun _ => .tooDeep) levels := by
  induction levels with
  | zero => rfl
  | succ levels ih =>
    show expressionOver (expression levels) = expressionOver (within _ levels)
    rw [ih]

/-- **Beyond the bound.**  On lexemes that open at most `k` levels, it makes no difference what stands
    for the expressions nested deeper. -/
theorem agree_within (k : Nat) (p p' : Matcher) : Agree k (within p k) (within p' k) := by
  induction k with
  | zero => exact .expressionOver nofun
  | succ k ih =>
    refine .expressionOver fun j hj => ?_
    obtain rfl := Nat.succ.inj hj
    exact ih

theorem expression_add (k n : Nat) : expression (k + 1 + n) = within (expression n) k := by
  induction k with
  | zero =>
    have hsucc : 0 + 1 + n = n + 1 := by omega
    rw [hsucc]
    rfl
  | succ k ih =>
    have hsucc : k + 1 + 1 + n = (k + 1 + n) + 1 := by omega
    rw [hsucc]
    show expressionOver (expression (k + 1 + n)) = expressionOver (within _ k)
    rw [ih]

/-- More levels than the lexemes open change nothing. -/
theorem expression_eq_of_within (hls : Within k ls) (hle : k ≤ n) :
    expression n ls = expression k ls := by
  obtain rfl | hlt := Nat.eq_or_lt_of_le hle
  · rfl
  · obtain ⟨m, rfl⟩ : ∃ m, n = k + 1 + m := Nat.exists_eq_add_of_le hlt
    rw [expression_add, expression_eq_within k]
    exact (agree_within k _ _ ls hls).eq

/-! ### Without a bound -/

/-- An expression by the rules without a bound on the levels: as many as there are lexemes are allowed,
    which is more than there can be. -/
def unbounded : Matcher := fun ls =>
  expression ls.length ls

theorem unbounded_eq_expression (hls : Within k ls) : unbounded ls = expression k ls := by
  rcases le_total k ls.length with hle | hle
  · exact expression_eq_of_within hls hle
  · exact (expression_eq_of_within (Lexeme.within_length ls) hle).symm

theorem agree_unbounded (k : Nat) : Agree k (expression k) unbounded := by
  intro ls hls
  rw [unbounded_eq_expression hls, expression_eq_within]
  exact agree_within k _ _ ls hls

/-- The rules without a bound go on with themselves inside parentheses. -/
theorem unbounded_eq_expressionOver : unbounded = expressionOver unbounded := by
  funext ls
  have hls : Within (ls.length + 1) ls := by
    obtain ⟨depth, hpeak⟩ := Lexeme.within_length ls
    exact ⟨depth, by omega⟩
  have hagree : Agree (ls.length + 1) (expression (ls.length + 1)) (expressionOver unbounded) := by
    refine .expressionOver fun j hj => ?_
    obtain rfl := Nat.succ.inj hj
    exact agree_unbounded ls.length
  rw [unbounded_eq_expression hls]
  exact (hagree ls hls).eq

/-- What goes on with itself inside parentheses may be put for what is nested deeper. -/
theorem eq_within_of_eq_expressionOver (h : p = expressionOver p) (k : Nat) : p = within p k := by
  induction k with
  | zero => exact h
  | succ k ih =>
    show p = expressionOver (within p k)
    rw [← ih]
    exact h

/-- **The rules.**  There is exactly one matcher that goes on with itself inside parentheses. -/
theorem eq_expressionOver_iff : p = expressionOver p ↔ p = unbounded := by
  constructor
  · intro h
    funext ls
    have hagree := agree_within ls.length p (fun _ => .tooDeep) ls (Lexeme.within_length ls)
    rw [← eq_within_of_eq_expressionOver h, ← expression_eq_within] at hagree
    exact hagree.eq
  · rintro rfl
    exact unbounded_eq_expressionOver

/-- An expression up to the end of the line, for a matcher of expressions. -/
def statementOver (p : Matcher) : Matcher :=
  phrase .statement (p.andThen endOfInput)

theorem agree_statementOver (hp : Agree k p p') : Agree k (statementOver p) (statementOver p') :=
  (hp.andThen .endOfInput).phrase

end Matcher

/-! ### Lines -/

variable {line : String} {limit : Nat} {ts : List Token}

/-- **The lexical pass bounds the descent.**  On a line that the lexical pass lets through under a limit,
    the rules never enter an expression inside more parentheses than that.  A pass of the rules that gives
    up where it would do so does not give up; whatever is put in the place of the expressions nested
    deeper, the pass gives the same; and it gives what the rules give without a bound, which decides the
    outcome of the line. -/
theorem descent_keeps_to_limit (hlex : Token.ofLine line = .ok ts)
    (hnest : Token.firstDeeper? limit 0 ts = none) :
    Matcher.statement limit (ts.map Token.lexeme) ≠ .tooDeep ∧
      (∀ deeper : Matcher,
        Matcher.statementOver (.within deeper limit) (ts.map Token.lexeme) =
          Matcher.statement limit (ts.map Token.lexeme)) ∧
      Matcher.statementOver .unbounded (ts.map Token.lexeme) =
        Matcher.statement limit (ts.map Token.lexeme) ∧
      ((∃ parts t, Matcher.statementOver .unbounded (ts.map Token.lexeme) = .matched parts [] ∧
          treeOf parts = .ok t ∧ outcome limit line = .ok t) ∨
        Matcher.statementOver .unbounded (ts.map Token.lexeme) = .failed ∧
          ∃ message span, outcome limit line = .error (.syntaxError message span)) := by
  have hpeak := (Token.firstDeeper?_eq_none_iff (Nat.zero_le limit) ts).mp hnest
  have hwithin : Within limit (ts.map Token.lexeme) := ⟨0, by omega⟩
  have hlexes := Token.ofLine_eq_ok_iff.mp hlex
  -- all that is asked of the pass follows from what stands beyond the bound being of no matter
  have hdeeper : ∀ deeper : Matcher,
      (Matcher.statement limit (ts.map Token.lexeme)).Agree (ts.map Token.lexeme)
        (Matcher.statementOver (.within deeper limit) (ts.map Token.lexeme)) := by
    intro deeper
    have hstatement : Matcher.statement limit = .statementOver (.expression limit) := rfl
    rw [hstatement, Matcher.expression_eq_within]
    exact Matcher.agree_statementOver (Matcher.agree_within limit _ _) _ hwithin
  have hunbounded : Matcher.statementOver .unbounded (ts.map Token.lexeme) =
      Matcher.statement limit (ts.map Token.lexeme) := by
    have hfixed := Matcher.eq_within_of_eq_expressionOver Matcher.unbounded_eq_expressionOver limit
    rw [hfixed]
    exact (hdeeper .unbounded).eq.symm
  refine ⟨(hdeeper .unbounded).ne_tooDeep, fun deeper => (hdeeper deeper).eq.symm, hunbounded, ?_⟩
  rw [hunbounded, outcome_of_lexes hlexes hpeak]
  rcases passes_agree hlexes hpeak with
    ⟨parts, t, hmatched, htree, hread⟩ | ⟨hfailed, r, message, span, hread, hfailure⟩
  · refine .inl ⟨parts, t, hmatched, htree, ?_⟩
    rw [hread]
    rfl
  · refine .inr ⟨hfailed, message, span, ?_⟩
    rw [hread, ← hfailure]
    rfl

/-- In `f((x` the call fails and the name is tried alone.  Two levels are enough for that, and the pass
    fails as it does without a bound; with one level it would be given up. -/
theorem descent_keeps_to_two_levels :
    Token.ofLine "f((x" =
        .ok [⟨.name ['f'], 0⟩, ⟨.openParen, 1⟩, ⟨.openParen, 2⟩, ⟨.name ['x'], 3⟩] ∧
      Matcher.statement 1 [.name ['f'], .openParen, .openParen, .name ['x']] = .tooDeep ∧
      Matcher.statement 2 [.name ['f'], .openParen, .openParen, .name ['x']] ≠ .tooDeep ∧
      Matcher.statementOver .unbounded [.name ['f'], .openParen, .openParen, .name ['x']] =
        Matcher.statement 2 [.name ['f'], .openParen, .openParen, .name ['x']] := by
  have hlex : Token.ofLine "f((x" =
      .ok [⟨.name ['f'], 0⟩, ⟨.openParen, 1⟩, ⟨.openParen, 2⟩, ⟨.name ['x'], 3⟩] := by
    cbv
  have hnest : Token.firstDeeper? 2 0
      [⟨.name ['f'], 0⟩, ⟨.openParen, 1⟩, ⟨.openParen, 2⟩, ⟨.name ['x'], 3⟩] = none := rfl
  have hkeeps := descent_keeps_to_limit hlex hnest
  exact ⟨hlex, rfl, hkeeps.1, hkeeps.2.2.1⟩

end Statement

end ExprForest

import ExprForest.Forest.Json
import ExprForest.Proofs.Decimal.Literals
import ExprForest.Proofs.Forest.Concatenation
import ExprForest.Proofs.Tree.HostForm

namespace ExprForest

/-!
# The host form of what was parsed

A host form has no place for a number that is not finite, and the texts of numbers may be too large.

* `Tree.FirstLost`, `Tree.toHostFrom_cases` — the first number that is not finite, which is refused;
* `Statement.Derives.mem_numbers_iff` — the numbers of a tree are those of its lexemes;
* `Parser.Writes` — the texts of numbers in a buffer;
* `Parser.forest_toHost_iff` — what was parsed has a host form exactly if every number in the buffer is small
  enough for a double, and otherwise infinity is refused.
-/

namespace Tree

open Json (Value)

/-! ### Trees -/

/-- Whether a number is the first in a list that is not finite. -/
def FirstLost (numbers : List Float) (x : Float) : Prop :=
  ∃ before after, numbers = before ++ x :: after ∧ (∀ y ∈ before, y.isFinite = true) ∧
    x.isFinite = false

theorem FirstLost.append {numbers : List Float} {x : Float} (h : FirstLost numbers x)
    (more : List Float) : FirstLost (numbers ++ more) x := by
  obtain ⟨before, after, rfl, hbefore, hx⟩ := h
  exact ⟨before, after ++ more, by simp, hbefore, hx⟩

theorem FirstLost.behind {numbers more : List Float} {x : Float} (h : FirstLost more x)
    (hfinite : ∀ y ∈ numbers, y.isFinite = true) : FirstLost (numbers ++ more) x := by
  obtain ⟨before, after, rfl, hbefore, hx⟩ := h
  refine ⟨numbers ++ before, after, by simp, ?_, hx⟩
  intro y hy
  rcases List.mem_append.mp hy with hy | hy
  · exact hfinite y hy
  · exact hbefore y hy

theorem FirstLost.mem {numbers : List Float} {x : Float} (h : FirstLost numbers x) : x ∈ numbers := by
  obtain ⟨before, after, rfl, -, -⟩ := h
  simp

/-- What is refused of a tree is the first of its numbers that is not finite. -/
theorem HostEnds.firstLost {t : Tree} {e : NotFinite} {n : Nat} (h : t.HostEnds (.error e) n) :
    FirstLost t.numbers e.value := by
  cases h with
  | refused hpostorder hbefore hx =>
    rw [numbers_eq_filterMap, hpostorder, List.filterMap_append]
    refine ⟨_, _, rfl, fun y hy => ?_, hx⟩
    obtain ⟨c, hc, hy⟩ := List.mem_filterMap.mp hy
    rw [Call.value?_eq_some_iff] at hy
    exact hbefore y (hy ▸ hc)

/-- Several trees have a host form, or the first of their numbers that is not finite is refused. -/
theorem toHostFrom_cases (made : List Value) (built : Nat) (trees : List Tree) :
    ((∀ t ∈ trees, t.AllFinite) ∧ ∃ v, toHostFrom made built trees = .ok v) ∨
      ∃ x, FirstLost (trees.flatMap numbers) x ∧ toHostFrom made built trees = .error ⟨x⟩ := by
  rcases toHostFrom_ends made built trees with
    ⟨hall, hhost⟩ | ⟨earlier, t, later, e, n, rfl, hall, hends, hhost⟩
  · exact .inl ⟨hall, _, hhost⟩
  · refine .inr ⟨e.value, ?_, hhost⟩
    rw [List.flatMap_append, List.flatMap_cons]
    refine (hends.firstLost.append _).behind fun y hy => ?_
    obtain ⟨u, hu, hyu⟩ := List.mem_flatMap.mp hy
    exact hall u hu y hyu

end Tree

/-! ### Numbers of statements -/

namespace Statement

/-- The numbers of a tree are the values of the numbers among its lexemes. -/
theorem Derives.mem_numbers_iff {c : Category} {ls : List Lexeme} {t : Tree} (h : Derives c ls t)
    (x : Float) :
    x ∈ t.numbers ↔ ∃ text, Lexeme.number text ∈ ls ∧ Decimal.read? text = some x := by
  induction h with
  | number hread => simp [Tree.numbers, hread, eq_comm]
  | name => simp [Tree.numbers]
  | group _ ih => simp [ih]
  | call _ ih => simp [Tree.numbers, ih]
  | argument _ ih => exact ih
  | comma _ _ ihl ihr => simp [Tree.numbers, ihl, ihr, or_and_right, exists_or]
  | base _ ih => exact ih
  | exponent _ _ ihl ihr => simp [Tree.numbers, ihl, ihr, or_and_right, exists_or]
  | factor _ ih => exact ih
  | multiplicative _ _ ihl ihr => simp [Tree.numbers, ihl, ihr, or_and_right, exists_or]
  | term _ ih => exact ih
  | additive _ _ ihl ihr => simp [Tree.numbers, ihl, ihr, or_and_right, exists_or]
  | value _ ih => exact ih
  | equals _ _ ihl ihr => simp [Tree.numbers, ihl, ihr, or_and_right, exists_or]

end Statement

/-! ### Buffers -/

namespace Parser

variable {p : Parser .standard} {buffer : String} {log : Log} {f : Forest}

/-- Whether a number with this text stands in a statement line of a buffer. -/
def Writes (p : Parser .standard) (buffer : String) (text : List Char) : Prop :=
  ∃ line ∈ p.statementLines buffer, ∃ ts, Token.Lexes line.text ts ∧
    Lexeme.number text ∈ ts.map Token.lexeme

/-- What is written as a number is the text of one. -/
theorem Writes.isNumeral {text : List Char} (h : p.Writes buffer text) : IsNumeral text := by
  obtain ⟨line, -, ts, hlex, hmem⟩ := h
  obtain ⟨t, ht, hnumber⟩ := List.mem_map.mp hmem
  have hwf := hlex.wellFormed t ht
  rwa [hnumber] at hwf

/-- The numbers of the trees are the values of the numbers that are written. -/
theorem Passes.mem_numbers_iff {lines : List Line} {trees : List Tree} (h : p.Passes lines trees)
    (x : Float) :
    x ∈ trees.flatMap Tree.numbers ↔
      ∃ text, (∃ line ∈ lines, ∃ ts, Token.Lexes line.text ts ∧
        Lexeme.number text ∈ ts.map Token.lexeme) ∧ Decimal.read? text = some x := by
  induction h with
  | nil => simp
  | @cons line t lines trees hgives _ ih =>
    obtain ⟨ts, hlex, -, hderives⟩ :=
      Statement.outcome_eq_ok_iff.mp (statement_eq_success_iff.mp (hgives .empty))
    -- the line has these tokens and no others
    have hline : ∀ text, (∃ ts, Token.Lexes line.text ts ∧ Lexeme.number text ∈ ts.map Token.lexeme) ↔
        Lexeme.number text ∈ ts.map Token.lexeme := by
      intro text
      constructor
      · rintro ⟨us, hus, hmem⟩
        rwa [hlex.unique hus]
      · exact fun hmem => ⟨ts, hlex, hmem⟩
    rw [List.flatMap_cons, List.mem_append, hderives.mem_numbers_iff, ih]
    simp only [List.exists_mem_cons_iff, hline, or_and_right, exists_or]

theorem mem_numbers_iff (h : (p.forest buffer log).1 = .success f) (x : Float) :
    x ∈ f.trees.flatMap Tree.numbers ↔ ∃ text, p.Writes buffer text ∧ Decimal.read? text = some x :=
  (passes_of_forest_eq h).mem_numbers_iff x

/-- **What is parsed has a host form unless a number is too large.**  The host form of the trees of a buffer
    is made exactly if every number that is written in a statement line denotes less than
    `Decimal.overflow`, from which on the nearest double is infinity.  Otherwise infinity is refused. -/
theorem forest_toHost_iff (h : (p.forest buffer log).1 = .success f) :
    ((∃ v, f.toHost = .ok v) ↔
      ∀ text, p.Writes buffer text → ∃ q, Decimal.Denotes text q ∧ q < Decimal.overflow) ∧
      ∀ e, f.toHost = .error e → e = ⟨Decimal.infinity⟩ := by
  have hmem := mem_numbers_iff h
  rcases Tree.toHostFrom_cases [] 0 f.trees with ⟨hall, v, hhost⟩ | ⟨x, hfirst, hhost⟩
  · have hok : f.toHost = .ok v := hhost
    refine ⟨iff_of_true ⟨v, hok⟩ ?_, ?_⟩
    · intro text hwrites
      obtain ⟨q, hq⟩ := Decimal.exists_denotes hwrites.isNumeral
      obtain ⟨x, hx⟩ := Decimal.exists_read?_eq_some hwrites.isNumeral
      obtain ⟨t, ht, hxt⟩ := List.mem_flatMap.mp ((hmem x).mpr ⟨text, hwrites, hx⟩)
      exact ⟨q, hq, (hq.isFinite_iff hx).mp (hall t ht x hxt)⟩
    · intro e he
      rw [hok] at he
      cases he
  · have herror : f.toHost = .error ⟨x⟩ := hhost
    obtain ⟨text, hwrites, hx⟩ := (hmem x).mp hfirst.mem
    obtain ⟨-, -, -, -, hlost⟩ := hfirst
    refine ⟨iff_of_false ?_ ?_, ?_⟩
    · rintro ⟨v, hv⟩
      rw [herror] at hv
      cases hv
    · intro hsmall
      obtain ⟨q, hq, hlt⟩ := hsmall text hwrites
      have hfinite := (hq.isFinite_iff hx).mpr hlt
      rw [hlost] at hfinite
      cases hfinite
    · intro e he
      rw [herror] at he
      rw [← Except.error.inj he]
      -- a number has no sign, and all that is not finite is infinity
      have hunsigned : Decimal.IsUnsigned x :=
        Decimal.IsLiteral.isUnsigned ⟨text, hwrites.isNumeral, hx⟩
      rw [hunsigned.eq_infinity hlost]

/-- What is read of a number that is too large. -/
theorem read?_tooLarge : Decimal.read? ['1', 'e', '9', '9', '9'] = some Decimal.infinity := by
  have hnumeral : Decimal.Numeral.read? ['1', 'e', '9', '9', '9'] = some (1, 999) := by cbv
  have hnearest : Decimal.nearest 1 999 = Decimal.infinity := by
    unfold Decimal.nearest
    dsimp only
    rw [if_neg (by decide), if_pos (by decide)]
  rw [Decimal.read?_eq_of_isNumeralStart (.inl rfl) hnumeral, hnearest]

/-- The buffer `1e999` is parsed. -/
theorem forest_tooLarge :
    (standard.forest "1e999" .empty).1 = .success ⟨[.number Decimal.infinity]⟩ := by
  have hlex : Token.Lexes "1e999" [⟨.number ['1', 'e', '9', '9', '9'], 0⟩] := by
    rw [← Token.ofLine_eq_ok_iff]
    cbv
  have hlines : standard.statementLines "1e999" = [⟨1, 0, "1e999"⟩] := by cbv
  have hgives : standard.Gives ⟨1, 0, "1e999"⟩ (.success (.number Decimal.infinity)) := by
    intro log
    rw [statement_eq_success_iff, Statement.outcome_eq_ok_iff]
    exact ⟨_, hlex, by decide, .value (.term (.factor (.base (.number read?_tooLarge))))⟩
  refine Passes.forest_eq ?_ .empty
  rw [hlines]
  exact .cons hgives .nil

/-- The host form of a number that is too large. -/
theorem forest_toHost_iff_of_tooLarge :
    (standard.forest "1e999" .empty).1 = .success ⟨[.number Decimal.infinity]⟩ ∧
      ((∃ v, Forest.toHost ⟨[.number Decimal.infinity]⟩ = .ok v) ↔
        ∀ text, standard.Writes "1e999" text →
          ∃ q, Decimal.Denotes text q ∧ q < Decimal.overflow) ∧
      ∀ e, Forest.toHost ⟨[.number Decimal.infinity]⟩ = .error e → e = ⟨Decimal.infinity⟩ :=
  ⟨forest_tooLarge, forest_toHost_iff forest_tooLarge⟩

/-- The tree of `1e999` has no host form. -/
theorem forest_without_host_form :
    (standard.forest "1e999" .empty).1 = .success ⟨[.number Decimal.infinity]⟩ ∧
      Forest.toHost ⟨[.number Decimal.infinity]⟩ = .error ⟨Decimal.infinity⟩ := by
  refine ⟨forest_tooLarge, ?_⟩
  rw [Forest.toHost, Tree.toHost, Tree.toHostFrom, Tree.build_eq_fold, Tree.fold_hostBuilder_number,
    Decimal.isFinite_infinity]
  rfl

end Parser

end ExprForest

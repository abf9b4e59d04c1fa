import ExprForest.Proofs.Decimal.Unsigned
import ExprForest.Proofs.Lexical.Spelling
import ExprForest.Proofs.Statement.Parsing
import ExprForest.Proofs.Statement.Primaries

namespace ExprForest

/-!
# The trees of statements

Which trees parsing gives: those in which calls, commas, names and numbers stand where a statement can put
them, and no others.

* `Tree.Shaped` — the shape of trees, with a condition on their numbers;
* `Statement.Derives.shaped` — what well-formed lexemes derive is shaped so;
* `Tree.Shaped.spelt` — a tree of this shape is derived from its operands in parentheses;
* `Parser.gives_exactly_shaped` — the trees that a parser gives.
-/

open Statement (Derives Category)

variable {P Q : Float → Prop} {listed : Bool} {t u : Tree} {l : Lexeme} {ls ms : List Lexeme}

/-! ### Shapes -/

/-- The shape of a tree whose numbers meet a condition.  `true` stands for the place of the arguments of a
    call: a comma stands on the right of a call or on the left of another comma, and nowhere else. -/
inductive Tree.Shaped (P : Float → Prop) : Bool → Tree → Prop where
  | number {listed : Bool} {value : Float} :
      P value →
      Shaped P listed (.number value)
  | identifier {listed : Bool} {name : String} :
      IsName name.toList →
      Shaped P listed (.identifier name)
  /-- What is called is a name. -/
  | call {listed : Bool} {name : String} {arguments : Tree} :
      IsName name.toList → Shaped P true arguments →
      Shaped P listed (.node .call (.identifier name) arguments)
  /-- Only the earlier arguments may be a comma again. -/
  | comma {earlier last : Tree} :
      Shaped P true earlier → Shaped P false last →
      Shaped P true (.node .comma earlier last)
  | operator {listed : Bool} {op : Operator} {left right : Tree} :
      op ≠ .call → op ≠ .comma → Shaped P false left → Shaped P false right →
      Shaped P listed (.node op left right)

namespace Tree

/-- What may stand anywhere may stand among arguments. -/
theorem Shaped.among_arguments (h : t.Shaped P false) : t.Shaped P true := by
  cases h with
  | number hvalue => exact .number hvalue
  | identifier hname => exact .identifier hname
  | call hname harguments => exact .call hname harguments
  | operator hcall hcomma hleft hright => exact .operator hcall hcomma hleft hright

/-- A weaker condition on the numbers. -/
theorem Shaped.mono (hPQ : ∀ x, P x → Q x) (h : t.Shaped P listed) : t.Shaped Q listed := by
  induction h with
  | number hvalue => exact .number (hPQ _ hvalue)
  | identifier hname => exact .identifier hname
  | call hname _ ih => exact .call hname ih
  | comma _ _ ihearlier ihlast => exact .comma ihearlier ihlast
  | operator hcall hcomma _ _ ihleft ihright => exact .operator hcall hcomma ihleft ihright

end Tree

/-! ### Lists of lexemes -/

namespace Lexeme

/-- Lexemes between parentheses. -/
theorem forall_mem_enclosed :
    (∀ m ∈ openParen :: ls ++ [closeParen], m.WellFormed) ↔ ∀ m ∈ ls, m.WellFormed := by
  simp [WellFormed, or_imp, forall_and]

/-- Lexemes on both sides of another. -/
theorem forall_mem_joined :
    (∀ m ∈ ls ++ l :: ms, m.WellFormed) ↔
      (∀ m ∈ ls, m.WellFormed) ∧ l.WellFormed ∧ ∀ m ∈ ms, m.WellFormed := by
  rw [List.forall_mem_append, List.forall_mem_cons]

end Lexeme

/-! ### From lexemes to trees -/

namespace Statement

/-- The place in which what a category derives may stand; `true` is the place of arguments. -/
def Category.place : Category → Bool
  | .arguments => true
  | _ => false

/-- The category of what may stand in a place: arguments, or primaries. -/
def Category.ofPlace : Bool → Category
  | true => .arguments
  | false => .primary

/-- Two operands around a sign. -/
theorem Derives.shaped_operands {op : Operator} (hls : ∀ m ∈ ls ++ l :: ms, m.WellFormed)
    (hcall : op ≠ .call) (hcomma : op ≠ .comma)
    (ht : (∀ m ∈ ls, m.WellFormed) → t.Shaped P false)
    (hu : (∀ m ∈ ms, m.WellFormed) → u.Shaped P false) : (Tree.node op t u).Shaped P false := by
  obtain ⟨hleft, -, hright⟩ := Lexeme.forall_mem_joined.mp hls
  exact .operator hcall hcomma (ht hleft) (hu hright)

/-- What well-formed lexemes derive has the shape of a statement, or of arguments. -/
theorem Derives.shaped {c : Category} (h : Derives c ls t) (hls : ∀ l ∈ ls, l.WellFormed) :
    t.Shaped Decimal.IsLiteral c.place := by
  -- on the derivation; only arguments are in the place where a comma may stand
  induction h with
  | @number text value hvalue =>
    have htext : IsNumeral text := hls _ List.mem_cons_self
    exact .number ⟨text, htext, hvalue⟩
  | @name text =>
    have htext : IsName text := hls _ List.mem_cons_self
    exact .identifier (by rwa [String.toList_ofList])
  | group _ ih => exact ih (Lexeme.forall_mem_enclosed.mp hls)
  | @call text ms arguments _ ih =>
    obtain ⟨htext, hbehind⟩ := List.forall_mem_cons.mp hls
    have hname : IsName text := htext
    exact .call (by rwa [String.toList_ofList]) (ih (Lexeme.forall_mem_enclosed.mp hbehind))
  | argument _ ih => exact (ih hls).among_arguments
  | comma _ _ ihearlier ihlast =>
    obtain ⟨hearlier, -, hlast⟩ := Lexeme.forall_mem_joined.mp hls
    exact .comma (ihearlier hearlier) (ihlast hlast)
  | base _ ih => exact ih hls
  | exponent _ _ ihleft ihright => exact shaped_operands hls nofun nofun ihleft ihright
  | factor _ ih => exact ih hls
  | @multiplicative _ _ _ _ sign _ _ ihleft ihright =>
    cases sign <;> exact shaped_operands hls nofun nofun ihleft ihright
  | term _ ih => exact ih hls
  | @additive _ _ _ _ sign _ _ ihleft ihright =>
    cases sign <;> exact shaped_operands hls nofun nofun ihleft ihright
  | value _ ih => exact ih hls
  | equals _ _ ihleft ihright => exact shaped_operands hls nofun nofun ihleft ihright

end Statement

/-! ### From trees to lexemes -/

namespace Tree

/-- Some well-formed lexemes derive a tree. -/
def Spelt (c : Category) (t : Tree) : Prop :=
  ∃ ls, (∀ l ∈ ls, l.WellFormed) ∧ Derives c ls t

/-- A primary may stand in both places. -/
theorem Spelt.placed (h : t.Spelt .primary) : t.Spelt (.ofPlace listed) := by
  cases listed with
  | false => exact h
  | true =>
    obtain ⟨ls, hls, hderives⟩ := h
    exact ⟨ls, hls, hderives.arguments⟩

theorem spelt_number {value : Float} (h : Decimal.IsLiteral value) :
    (Tree.number value).Spelt .primary := by
  obtain ⟨text, htext, hvalue⟩ := h
  exact ⟨[.number text], List.forall_mem_singleton.mpr htext, .number hvalue⟩

theorem spelt_identifier {name : String} (h : IsName name.toList) :
    (Tree.identifier name).Spelt .primary := by
  have hderives : Derives .primary [.name name.toList] (.identifier (String.ofList name.toList)) :=
    .name
  rw [String.ofList_toList] at hderives
  exact ⟨[.name name.toList], List.forall_mem_singleton.mpr h, hderives⟩

/-- A call puts its arguments in parentheses behind the name. -/
theorem Spelt.call {name : String} (h : IsName name.toList) (ht : t.Spelt .arguments) :
    (Tree.node .call (.identifier name) t).Spelt .primary := by
  obtain ⟨ls, hls, harguments⟩ := ht
  have hderives : Derives .primary (.name name.toList :: .openParen :: ls ++ [.closeParen])
      (.node .call (.identifier (String.ofList name.toList)) t) := .call harguments
  rw [String.ofList_toList] at hderives
  have hname : (Lexeme.name name.toList).WellFormed := h
  exact ⟨_, List.forall_mem_cons.mpr ⟨hname, Lexeme.forall_mem_enclosed.mpr hls⟩, hderives⟩

/-- A comma stands between the earlier arguments and the last. -/
theorem Spelt.comma (ht : t.Spelt .arguments) (hu : u.Spelt .primary) :
    (Tree.node .comma t u).Spelt .arguments := by
  obtain ⟨ls, hls, hearlier⟩ := ht
  obtain ⟨ms, hms, hlast⟩ := hu
  exact ⟨ls ++ .comma :: ms, Lexeme.forall_mem_joined.mpr ⟨hls, trivial, hms⟩,
    hearlier.comma hlast.expression⟩

/-- Every other operator stands between its operands, and parentheses around all of it. -/
theorem Spelt.operator {op : Operator} (hcall : op ≠ .call) (hcomma : op ≠ .comma)
    (ht : t.Spelt .primary) (hu : u.Spelt .primary) : (Tree.node op t u).Spelt .primary := by
  obtain ⟨c, l, hop⟩ := Operator.exists_writtenAs hcall hcomma
  obtain ⟨ls, hls, hleft⟩ := ht
  obtain ⟨ms, hms, hright⟩ := hu
  have hl : l.WellFormed := Lexeme.wellFormed_of_ofSign? hop.sign
  exact ⟨.openParen :: (ls ++ l :: ms) ++ [.closeParen],
    Lexeme.forall_mem_enclosed.mpr (Lexeme.forall_mem_joined.mpr ⟨hls, hl, hms⟩),
    .group (hop.derives hleft hright)⟩

/-- A tree of the right shape is spelt with parentheses around every operator. -/
theorem Shaped.spelt (h : t.Shaped Decimal.IsLiteral listed) : t.Spelt (.ofPlace listed) := by
  -- on the shape; whatever is not a list of arguments is made a primary, which fits every place
  induction h with
  | number hvalue => exact (spelt_number hvalue).placed
  | identifier hname => exact (spelt_identifier hname).placed
  | call hname _ ih => exact (Spelt.call hname ih).placed
  | comma _ _ ihearlier ihlast => exact ihearlier.comma ihlast
  | operator hcall hcomma _ _ ihleft ihright => exact (ihleft.operator hcall hcomma ihright).placed

end Tree

/-! ### Lines -/

/-- Some line, under some limit, gives a tree of the right shape. -/
theorem Statement.exists_outcome_of_shaped (h : t.Shaped Decimal.IsLiteral false) :
    ∃ limit line, 0 < limit ∧ outcome limit line = .ok t := by
  obtain ⟨ls, hls, hderives⟩ := h.spelt
  obtain ⟨line, ts, hlex, rfl⟩ := Lexeme.exists_line hls
  have hpeak : Lexeme.peak 0 (ts.map Token.lexeme) ≤ Lexeme.peak 0 (ts.map Token.lexeme) + 1 :=
    Nat.le_succ _
  exact ⟨Lexeme.peak 0 (ts.map Token.lexeme) + 1, line, Nat.succ_pos _,
    outcome_eq_ok_iff.mpr ⟨ts, hlex, hpeak, Derives.expression hderives⟩⟩

namespace Parser

/-- **A parser gives exactly the trees of statements.**  Whatever the line and the limit, a tree that is
    given has the shape of a statement: a name on the left of every call, commas only on the right of calls
    and on the left of commas, and names made of letters, digits and `_`.  Its numbers are values of texts
    of numbers; none is below zero, minus zero or not-a-number.  Conversely, every tree of this shape with
    such numbers is given for some line under some limit. -/
theorem gives_exactly_shaped :
    (∀ (p : Parser .standard) (line : String) (log : Log) (t : Tree),
      (p.statement line log).1 = .success t →
        t.Shaped (fun x => Decimal.IsLiteral x ∧ ¬x < 0 ∧ x ≠ -0 ∧ x.isNaN = false) false) ∧
      ∀ t : Tree, t.Shaped Decimal.IsLiteral false →
        ∃ (p : Parser .standard) (line : String), ∀ log, (p.statement line log).1 = .success t := by
  constructor
  · intro p line log t h
    obtain ⟨ts, hlex, -, hderives⟩ :=
      Statement.outcome_eq_ok_iff.mp (statement_eq_success_iff.mp h)
    have hwellFormed : ∀ l ∈ ts.map Token.lexeme, l.WellFormed := by
      simpa using hlex.wellFormed
    apply (hderives.shaped hwellFormed).mono
    intro x hx
    have hunsigned := hx.isUnsigned
    exact ⟨hx, hunsigned.not_lt_zero, hunsigned.ne_neg_zero, hunsigned.isNaN_eq_false⟩
  · intro t h
    obtain ⟨limit, line, hlimit, houtcome⟩ := Statement.exists_outcome_of_shaped h
    exact ⟨⟨⟨true, limit⟩, hlimit⟩, line, fun log => statement_eq_success_iff.mpr houtcome⟩

/-- A comma is given below a call, but by itself it is the tree of no line. -/
theorem gives_comma_below_call :
    (∃ (p : Parser .standard) (line : String), ∀ log, (p.statement line log).1 =
      .success (.node .call (.identifier "f") (.node .comma (.identifier "x") (.number 2)))) ∧
      ¬∃ (p : Parser .standard) (line : String) (log : Log), (p.statement line log).1 =
        .success (.node .comma (.identifier "x") (.number 2)) := by
  have hf : IsName "f".toList := ⟨'f', [], rfl, rfl, nofun⟩
  have hx : IsName "x".toList := ⟨'x', [], rfl, rfl, nofun⟩
  have hdigits : Numeral.IsDigits ['2'] := ⟨nofun, by simp⟩
  have hvalue : Decimal.read? ['2'] = some 2 := by decide +kernel
  have htwo : Decimal.IsLiteral 2 := ⟨['2'], .mantissa (.whole hdigits), hvalue⟩
  constructor
  · apply gives_exactly_shaped.2
    exact .call hf (.comma (.identifier hx) (.number htwo))
  · rintro ⟨p, line, log, h⟩
    have hshaped := gives_exactly_shaped.1 p line log _ h
    cases hshaped with
    | operator _ hcomma => exact hcomma rfl

end Parser

end ExprForest

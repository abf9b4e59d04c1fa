import ExprForest.Statement.Derivation
import ExprForest.Token.Nesting

namespace ExprForest

/-!
# Primaries as operands

A primary may stand wherever the grammar asks for an expression or for arguments, and on both sides of
every operator that is written between its operands.

* `Statement.Derives.expression`, `Statement.Derives.arguments` — a primary as an expression and as the
  arguments of a call;
* `Operator.WrittenAs` — the sign of an operator, as a character and as a lexeme, and the expression that
  it makes of two primaries;
* `Operator.exists_writtenAs` — all operators but calls and commas are written so.
-/

open Statement (Derives)

variable {ls ms : List Lexeme} {t u : Tree} {op : Operator}

namespace Statement

/-- A primary is an expression. -/
theorem Derives.expression (h : Derives .primary ls t) : Derives .expression ls t :=
  .value (.term (.factor (.base h)))

/-- A primary is a single argument. -/
theorem Derives.arguments (h : Derives .primary ls t) : Derives .arguments ls t :=
  .argument h.expression

end Statement

namespace Operator

/-- An operator that is written between its operands, with one sign that is a lexeme of its own. -/
structure WrittenAs (op : Operator) (c : Char) (l : Lexeme) : Prop where
  symbol : op.symbol = String.singleton c
  sign : Lexeme.ofSign? c = some l
  depth : ∀ depth, l.depthAfter depth = depth
  derives : ∀ {ls ms t u}, Derives .primary ls t → Derives .primary ms u →
    Derives .expression (ls ++ l :: ms) (.node op t u)

/-- All operators but calls and commas are written between their operands. -/
theorem exists_writtenAs (hcall : op ≠ .call) (hcomma : op ≠ .comma) : ∃ c l, op.WrittenAs c l := by
  cases op with
  | add =>
    refine ⟨'+', .additive .plus, rfl, rfl, fun _ => rfl, ?_⟩
    intro ls ms t u ht hu
    exact .value (.additive (.term (.factor (.base ht))) (.factor (.base hu)))
  | subtract =>
    refine ⟨'-', .additive .minus, rfl, rfl, fun _ => rfl, ?_⟩
    intro ls ms t u ht hu
    exact .value (.additive (.term (.factor (.base ht))) (.factor (.base hu)))
  | multiply =>
    refine ⟨'*', .multiplicative .times, rfl, rfl, fun _ => rfl, ?_⟩
    intro ls ms t u ht hu
    exact .value (.term (.multiplicative (.factor (.base ht)) (.base hu)))
  | divide =>
    refine ⟨'/', .multiplicative .over, rfl, rfl, fun _ => rfl, ?_⟩
    intro ls ms t u ht hu
    exact .value (.term (.multiplicative (.factor (.base ht)) (.base hu)))
  | exponent =>
    refine ⟨'^', .caret, rfl, rfl, fun _ => rfl, ?_⟩
    intro ls ms t u ht hu
    exact .value (.term (.factor (.exponent ht (.base hu))))
  | assign =>
    refine ⟨'=', .equals, rfl, rfl, fun _ => rfl, ?_⟩
    intro ls ms t u ht hu
    exact .equals (.term (.factor (.base ht))) hu.expression
  | comma => exact absurd rfl hcomma
  | call => exact absurd rfl hcall

end Operator

end ExprForest

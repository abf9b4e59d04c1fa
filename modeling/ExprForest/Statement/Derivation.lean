import ExprForest.Statement.Machine

namespace ExprForest.Statement

/-!
# The grammar of statements

The statement grammar as productions over lexemes, apart from the way in which a line is read.

* `Category` — its nonterminal symbols, from the loosest to the tightest, and the arguments of a call;
* `Derives` — which lexemes have which tree in a category.  `=` and `^` group to the right, the other
  operators and the commas between arguments to the left, and parentheses leave no node.
-/

/-- The nonterminal symbols of the grammar. -/
inductive Category where
  | expression | sum | product | power | primary | arguments
  deriving DecidableEq

/-- Which lexemes have which tree in a category. -/
inductive Derives : Category → List Lexeme → Tree → Prop where
  /-- A number stands for itself. -/
  | number {text : List Char} {value : Float} :
      Decimal.read? text = some value →
      Derives .primary [.number text] (.number value)
  /-- A name stands for itself. -/
  | name {text : List Char} :
      Derives .primary [.name text] (.identifier (String.ofList text))
  /-- Parentheses around an expression. -/
  | group {ls : List Lexeme} {t : Tree} :
      Derives .expression ls t →
      Derives .primary (.openParen :: ls ++ [.closeParen]) t
  /-- A name with arguments in parentheses. -/
  | call {text : List Char} {ls : List Lexeme} {t : Tree} :
      Derives .arguments ls t →
      Derives .primary (.name text :: .openParen :: ls ++ [.closeParen])
        (.node .call (.identifier (String.ofList text)) t)
  /-- A single argument. -/
  | argument {ls : List Lexeme} {t : Tree} :
      Derives .expression ls t →
      Derives .arguments ls t
  /-- Arguments, and one more behind a comma. -/
  | comma {ls ms : List Lexeme} {l r : Tree} :
      Derives .arguments ls l → Derives .expression ms r →
      Derives .arguments (ls ++ .comma :: ms) (.node .comma l r)
  /-- A power without an exponent. -/
  | base {ls : List Lexeme} {t : Tree} :
      Derives .primary ls t →
      Derives .power ls t
  /-- A base with its exponent, which is a power itself. -/
  | exponent {ls ms : List Lexeme} {l r : Tree} :
      Derives .primary ls l → Derives .power ms r →
      Derives .power (ls ++ .caret :: ms) (.node .exponent l r)
  /-- A product of one factor. -/
  | factor {ls : List Lexeme} {t : Tree} :
      Derives .power ls t →
      Derives .product ls t
  /-- A product with one more factor. -/
  | multiplicative {ls ms : List Lexeme} {l r : Tree} {sign : Multiplicative} :
      Derives .product ls l → Derives .power ms r →
      Derives .product (ls ++ .multiplicative sign :: ms) (.node (multiplicativeOperator sign) l r)
  /-- A sum of one term. -/
  | term {ls : List Lexeme} {t : Tree} :
      Derives .product ls t →
      Derives .sum ls t
  /-- A sum with one more term. -/
  | additive {ls ms : List Lexeme} {l r : Tree} {sign : Additive} :
      Derives .sum ls l → Derives .product ms r →
      Derives .sum (ls ++ .additive sign :: ms) (.node (additiveOperator sign) l r)
  /-- An expression without assignment. -/
  | value {ls : List Lexeme} {t : Tree} :
      Derives .sum ls t →
      Derives .expression ls t
  /-- An assignment, whose right side is an expression itself. -/
  | equals {ls ms : List Lexeme} {l r : Tree} :
      Derives .sum ls l → Derives .expression ms r →
      Derives .expression (ls ++ .equals :: ms) (.node .assign l r)

end ExprForest.Statement

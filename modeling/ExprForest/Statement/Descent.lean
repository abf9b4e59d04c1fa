import ExprForest.Statement.Syntax
import ExprForest.Token.Basic

namespace ExprForest.Statement

/-!
# Statements by descent

The rules of the statement grammar as matchers of lexemes, which try alternatives in order, repeat as often
as they can, and never come back to a choice that succeeded.

* `Attempt`, `Matcher` — what matching the head of a list of lexemes gives;
* `Matcher.andThen`, `Matcher.orElse`, `Matcher.many` — one after the other, the first that does not fail,
  and repetition;
* `Matcher.expression` — the rules, in which expressions nest no deeper than some levels;
* `Matcher.statement` — an expression up to the end of the line.

These are the rules of `ExprForest.Statement.Search` without characters, spaces and tries, and find the same
(`Search.follows_statement`).
-/

/-- What an attempt to match the head of a list of lexemes gives. -/
inductive Attempt where
  | failed
  /-- The attempt was given up because expressions nest too deep. -/
  | tooDeep
  /-- The parts of the match, and the lexemes behind it. -/
  | matched (parts : List Part) (rest : List Lexeme)

/-- An attempt for each list of lexemes. -/
def Matcher := List Lexeme → Attempt

namespace Matcher

/-! ### Combinations -/

/-- One after the other. -/
def andThen (p q : Matcher) : Matcher := fun ls =>
  match p ls with
  | .failed => .failed
  | .tooDeep => .tooDeep
  | .matched parts rest =>
    match q rest with
    | .failed => .failed
    | .tooDeep => .tooDeep
    | .matched more rest => .matched (parts ++ more) rest

/-- The second one only where the first one fails. -/
def orElse (p q : Matcher) : Matcher := fun ls =>
  match p ls with
  | .failed => q ls
  | a => a

/-- Repeats a matcher until it fails.  Each time takes up lexemes, so there are no more of them than in
    `room`, the lexemes before the first time. -/
def manyFrom (p : Matcher) : List Lexeme → Matcher
  | [], ls => .matched [] ls
  | _ :: room, ls =>
    match p ls with
    | .failed => .matched [] ls
    | .tooDeep => .tooDeep
    | .matched parts rest =>
      match manyFrom p room rest with
      | .failed => .failed
      | .tooDeep => .tooDeep
      | .matched more rest => .matched (parts ++ more) rest

/-- Repeats a matcher as often as it succeeds, perhaps not at all. -/
def many (p : Matcher) : Matcher := fun ls => manyFrom p ls ls

/-- Makes one part of a rule of all parts of a match. -/
def phrase (rule : Rule) (p : Matcher) : Matcher := fun ls =>
  match p ls with
  | .failed => .failed
  | .tooDeep => .tooDeep
  | .matched parts rest => .matched [.phrase rule parts] rest

/-- Operands with an operator between each two of them. -/
def chain (rule : Rule) (operand operator : Matcher) : Matcher :=
  phrase rule (operand.andThen (operator.andThen operand).many)

/-! ### Lexemes -/

/-- A given lexeme, of which the rule leaves a part. -/
def sign (rule : Rule) (l : Lexeme) : Matcher
  | [] => .failed
  | l' :: ls => if l' = l then .matched [.lexeme rule l.chars] ls else .failed

/-- A given lexeme, of which no part is left. -/
def silent (l : Lexeme) : Matcher
  | [] => .failed
  | l' :: ls => if l' = l then .matched [] ls else .failed

/-- A number. -/
def number : Matcher
  | .number text :: ls => .matched [.lexeme .number text] ls
  | _ => .failed

/-- A name. -/
def identifier : Matcher
  | .name text :: ls => .matched [.lexeme .identifier text] ls
  | _ => .failed

/-- The end of the line. -/
def endOfInput : Matcher
  | [] => .matched [.lexeme .endOfInput []] []
  | _ :: _ => .failed

/-! ### Rules -/

section Rules

-- `nested` matches the expressions inside parentheses.
variable (nested : Matcher)

/-- Expressions with commas between them. -/
def arguments : Matcher := chain .arguments nested (silent .comma)

/-- A name with arguments in parentheses. -/
def call : Matcher :=
  phrase .call (identifier.andThen
    ((silent .openParen).andThen ((arguments nested).andThen (silent .closeParen))))

/-- A call, a number, a name, or an expression in parentheses, in this order. -/
def primary : Matcher :=
  (call nested).orElse (number.orElse (identifier.orElse
    ((silent .openParen).andThen (nested.andThen (silent .closeParen)))))

/-- Primaries with `^` between them. -/
def power : Matcher := chain .power (primary nested) (sign .exponent .caret)

/-- Powers with signs of a product between them. -/
def product : Matcher :=
  chain .product (power nested)
    ((sign .multiply (.multiplicative .times)).orElse (sign .divide (.multiplicative .over)))

/-- Products with signs of a sum between them. -/
def sum : Matcher :=
  chain .sum (product nested)
    ((sign .add (.additive .plus)).orElse (sign .subtract (.additive .minus)))

/-- Sums with `=` between them. -/
def expressionOver : Matcher := chain .expression (sum nested) (sign .assign .equals)

end Rules

/-- An expression, inside which expressions nest at most `levels` deep. -/
def expression : Nat → Matcher
  | 0 => expressionOver fun _ => .tooDeep
  | levels + 1 => expressionOver (expression levels)

/-- An expression up to the end of the line. -/
def statement (levels : Nat) : Matcher :=
  phrase .statement ((expression levels).andThen endOfInput)

end Matcher

end ExprForest.Statement

namespace ExprForest

/-!
# Lexemes and tokens

* `Lexeme` — the smallest parts of a line that carry meaning, grouped as the grammar groups them;
* `Lexeme.chars` — the text of a lexeme;
* `Token` — a lexeme and the byte of its line at which it starts.
-/

/-- The signs of a sum. -/
inductive Additive where
  | plus | minus
  deriving DecidableEq

/-- The signs of a product. -/
inductive Multiplicative where
  | times | over
  deriving DecidableEq

/-- A smallest part of a line that carries meaning. -/
inductive Lexeme where
  | number (text : List Char)
  | name (text : List Char)
  | equals
  | additive (sign : Additive)
  | multiplicative (sign : Multiplicative)
  | caret
  | openParen
  | closeParen
  | comma
  deriving DecidableEq

namespace Lexeme

/-- The text of a lexeme. -/
def chars : Lexeme → List Char
  | number text => text
  | name text => text
  | equals => ['=']
  | additive .plus => ['+']
  | additive .minus => ['-']
  | multiplicative .times => ['*']
  | multiplicative .over => ['/']
  | caret => ['^']
  | openParen => ['(']
  | closeParen => [')']
  | comma => [',']

/-- The lexeme that is written with one given sign. -/
def ofSign? : Char → Option Lexeme
  | '=' => some equals
  | '+' => some (additive .plus)
  | '-' => some (additive .minus)
  | '*' => some (multiplicative .times)
  | '/' => some (multiplicative .over)
  | '^' => some caret
  | '(' => some openParen
  | ')' => some closeParen
  | ',' => some comma
  | _ => none

/-- A sign is the whole text of its lexeme. -/
theorem chars_of_ofSign? {c : Char} {l : Lexeme} (h : ofSign? c = some l) : l.chars = [c] := by
  unfold ofSign? at h
  split at h <;> first | (obtain rfl := Option.some.inj h; rfl) | cases h

end Lexeme

/-- A lexeme and the byte of its line at which it starts. -/
structure Token where
  lexeme : Lexeme
  start : Nat
  deriving DecidableEq

end ExprForest

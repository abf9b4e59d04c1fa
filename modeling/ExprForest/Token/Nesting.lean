import ExprForest.Token.Basic

namespace ExprForest

/-!
# Nesting of parentheses

* `Lexeme.depthAfter` — the number of open parentheses behind a lexeme; a closing one that closes
  nothing leaves it at zero;
* `Token.firstDeeper?` — the first parenthesis that opens a level beyond a limit.
-/

/-- How many parentheses are open behind a lexeme, if `depth` were open before it. -/
def Lexeme.depthAfter (depth : Nat) : Lexeme → Nat
  | openParen => depth + 1
  | closeParen => depth - 1
  | _ => depth

/-- The highest number of parentheses that are open behind some lexeme of a list, at least `depth`,
    the number open before the first. -/
def Lexeme.peak (depth : Nat) : List Lexeme → Nat
  | [] => depth
  | l :: ls => max depth (peak (l.depthAfter depth) ls)

/-- The first token that opens a level beyond `limit`, if `depth` levels are open before the list. -/
def Token.firstDeeper? (limit depth : Nat) : List Token → Option Token
  | [] => none
  | t :: ts =>
    let next := t.lexeme.depthAfter depth
    if t.lexeme = .openParen ∧ limit < next then some t
    else firstDeeper? limit next ts

end ExprForest

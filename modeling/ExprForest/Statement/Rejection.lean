import ExprForest.Grammar.Basic
import ExprForest.Statement.Machine

namespace ExprForest.Statement

/-!
# What the reader tells of a line that is no statement

The reader of `ExprForest.Statement.Machine` stops at the first token that cannot continue.  What it tells of
that token needs no search of the line.

* `Stop.expected` — what could have stood in the place of the token;
* `Rejection.offset`, `foundText` — where the token stands, and what it starts with;
* `Rejection.failure` — the failure of the line.
-/

/-- What could have stood where the reader stopped. -/
def Stop.expected : Stop → String
  | .operandMissing true => "number or identifier"
  | .operandMissing false => "expression"
  | .operatorMissing false => "end of line, '+', '-', '*', '/', '^' or '='"
  | .operatorMissing true => "'+', '-', '*', '/', '^' or '='"
  | .notANumber _ => "number"

/-- What stands where the reader stopped: the first character of the token, or the end. -/
def foundText : Option Token → String
  | none => "end of line"
  | some t =>
    match t.lexeme.chars with
    | [] => "end of line"
    | c :: _ => "'" ++ String.singleton c ++ "'"

/-- The byte of a line at which the reader stopped. -/
def Rejection.offset (line : String) (r : Rejection) : Nat :=
  match r.token with
  | none => line.utf8ByteSize
  | some t => t.start

/-- The failure of a line that is no statement: an empty span at the first token that cannot
    continue, or at the end. -/
def Rejection.failure (line : String) (r : Rejection) : EngineError :=
  match r.stop with
  | .notANumber text => .other ("'" ++ String.ofList text ++ "' is not a number")
  | stop =>
    .syntaxError ("expected " ++ stop.expected ++ ", found " ++ foundText r.token)
      (.point line (r.offset line))

end ExprForest.Statement

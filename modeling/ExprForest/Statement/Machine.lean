import ExprForest.Decimal.Reading
import ExprForest.Token.Basic
import ExprForest.Tree.Basic

namespace ExprForest.Statement

/-!
# Reading a statement

A statement is read token by token.  At every moment the reader either needs an operand or has just
read one; what came before is kept as a level of pending operands for each open parenthesis.

* `Level` — the operands pending inside one pair of parentheses, from the loosest operator to the
  tightest: `=` and `^` chains are folded to the right when the level closes, `+ -` and `* /` chains
  to the left as they come;
* `Frame` — an open parenthesis: a group, or the arguments of a call;
* `State.step` — one token; `State.finish` — the end of the line;
* `read` — a whole token list: its tree, or the first token that cannot continue.

Lines are given their trees by the search of `ExprForest.Statement.Search`.  The reader tells in one pass, and
without going back, what that search comes to (`Statement.reduce_of_lexes`).
-/

/-- The operator of a sign of a sum. -/
def additiveOperator : Additive → Operator
  | .plus => .add
  | .minus => .subtract

/-- The operator of a sign of a product. -/
def multiplicativeOperator : Multiplicative → Operator
  | .times => .multiply
  | .over => .divide

/-- Operands that wait for their right side, inside one pair of parentheses. -/
structure Level where
  /-- Left sides of `=`, the latest first. -/
  assigned : List Tree
  /-- The sum so far and the sign behind it. -/
  sum : Option (Tree × Additive)
  /-- The product so far and the sign behind it. -/
  product : Option (Tree × Multiplicative)
  /-- Bases of `^`, the latest first. -/
  bases : List Tree

namespace Level

/-- Nothing is pending. -/
def empty : Level := ⟨[], none, none, []⟩

/-- The power that ends with the operand `t`. -/
def power (level : Level) (t : Tree) : Tree :=
  level.bases.foldl (fun exponent base => .node .exponent base exponent) t

/-- The product that ends with the operand `t`. -/
def productOf (level : Level) (t : Tree) : Tree :=
  match level.product with
  | none => level.power t
  | some (left, sign) => .node (multiplicativeOperator sign) left (level.power t)

/-- The sum that ends with the operand `t`. -/
def sumOf (level : Level) (t : Tree) : Tree :=
  match level.sum with
  | none => level.productOf t
  | some (left, sign) => .node (additiveOperator sign) left (level.productOf t)

/-- The expression that ends with the operand `t`. -/
def close (level : Level) (t : Tree) : Tree :=
  level.assigned.foldl (fun value target => .node .assign target value) (level.sumOf t)

/-- The level behind the operand `t` and a `^`. -/
def afterCaret (level : Level) (t : Tree) : Level :=
  { level with bases := t :: level.bases }

/-- The level behind the operand `t` and a sign of a product. -/
def afterMultiplicative (level : Level) (t : Tree) (sign : Multiplicative) : Level :=
  { level with product := some (level.productOf t, sign), bases := [] }

/-- The level behind the operand `t` and a sign of a sum. -/
def afterAdditive (level : Level) (t : Tree) (sign : Additive) : Level :=
  { level with sum := some (level.sumOf t, sign), product := none, bases := [] }

/-- The level behind the operand `t` and a `=`. -/
def afterEquals (level : Level) (t : Tree) : Level :=
  ⟨level.sumOf t :: level.assigned, none, none, []⟩

end Level

/-- An open parenthesis, with what is pending around it. -/
inductive Frame where
  /-- Parentheses around an expression. -/
  | group (outer : Level)
  /-- The arguments of a call, with the chain of those already read. -/
  | call (callee : String) (arguments : Option Tree) (outer : Level)

/-- The chain of arguments with one more at its end. -/
def chain (arguments : Option Tree) (t : Tree) : Tree :=
  match arguments with
  | none => t
  | some earlier => .node .comma earlier t

/-- What is pending: the innermost level and the open parentheses around it, the innermost first. -/
structure Context where
  level : Level
  frames : List Frame

/-- Where the reader stands. -/
inductive State where
  /-- An operand must follow. -/
  | operand (context : Context)
  /-- A name was read; a parenthesis would make it a callee. -/
  | name (context : Context) (name : String)
  /-- An operand is complete. -/
  | complete (context : Context) (t : Tree)

/-- Nothing is read. -/
def State.initial : State := .operand ⟨.empty, []⟩

/-- Why a token, or the end of the line, cannot continue. -/
inductive Stop where
  /-- An operand is missing; `afterCaret` tells whether a `^` stands right before. -/
  | operandMissing (afterCaret : Bool)
  /-- An operator is missing; `nested` tells whether a parenthesis is open. -/
  | operatorMissing (nested : Bool)
  /-- A number lexeme that does not read as a number. -/
  | notANumber (text : List Char)
  deriving DecidableEq

namespace Context

/-- Behind a complete operand where none of the pending levels can go on. -/
def missing (context : Context) : Stop :=
  .operatorMissing (!context.frames.isEmpty)

/-- One lexeme behind the complete operand `t`. -/
def resume (context : Context) (t : Tree) (lexeme : Lexeme) : Except Stop State :=
  let level := context.level
  match lexeme with
  | .equals => .ok (.operand { context with level := level.afterEquals t })
  | .additive sign => .ok (.operand { context with level := level.afterAdditive t sign })
  | .multiplicative sign => .ok (.operand { context with level := level.afterMultiplicative t sign })
  | .caret => .ok (.operand { context with level := level.afterCaret t })
  | .closeParen =>
    match context.frames with
    | .group outer :: frames => .ok (.complete ⟨outer, frames⟩ (level.close t))
    | .call callee arguments outer :: frames =>
      .ok (.complete ⟨outer, frames⟩
        (.node .call (.identifier callee) (chain arguments (level.close t))))
    | [] => .error context.missing
  | .comma =>
    match context.frames with
    | .call callee arguments outer :: frames =>
      .ok (.operand ⟨.empty, .call callee (some (chain arguments (level.close t))) outer :: frames⟩)
    | _ => .error context.missing
  | _ => .error context.missing

/-- The end of the line behind the complete operand `t`. -/
def finish (context : Context) (t : Tree) : Except Stop Tree :=
  match context.frames with
  | [] => .ok (context.level.close t)
  | _ :: _ => .error context.missing

end Context

namespace State

/-- One lexeme. -/
def step : State → Lexeme → Except Stop State
  | operand context, lexeme =>
    match lexeme with
    | .number text =>
      match Decimal.read? text with
      | some value => .ok (complete context (.number value))
      | none => .error (.notANumber text)
    | .name text => .ok (name context (String.ofList text))
    | .openParen => .ok (operand ⟨.empty, .group context.level :: context.frames⟩)
    | _ => .error (.operandMissing (!context.level.bases.isEmpty))
  | name context callee, .openParen =>
    .ok (operand ⟨.empty, .call callee none context.level :: context.frames⟩)
  | name context s, lexeme => context.resume (.identifier s) lexeme
  | complete context t, lexeme => context.resume t lexeme

/-- The end of the line. -/
def finish : State → Except Stop Tree
  | operand context => .error (.operandMissing (!context.level.bases.isEmpty))
  | name context s => context.finish (.identifier s)
  | complete context t => context.finish t

end State

/-- Why a line is no statement: the cause, and the token that cannot continue, or `none` for the end
    of the line. -/
structure Rejection where
  stop : Stop
  token : Option Token
  deriving DecidableEq

/-- Reads the rest of a line from a state on. -/
def run : State → List Token → Except Rejection Tree
  | s, [] =>
    match s.finish with
    | .ok t => .ok t
    | .error stop => .error ⟨stop, none⟩
  | s, t :: ts =>
    match s.step t.lexeme with
    | .ok s => run s ts
    | .error stop => .error ⟨stop, some t⟩

/-- The tree of a token list, or the first token that cannot continue. -/
def read (tokens : List Token) : Except Rejection Tree :=
  run .initial tokens

end ExprForest.Statement

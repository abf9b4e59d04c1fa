import ExprForest.Decimal.Reading
import ExprForest.Grammar.Basic

namespace ExprForest.Statement

/-!
# The parts of a statement

What the rules of the statement grammar leave of a line: a part for each match of a named rule, with the
parts inside it.  Chains of operands are flat here; the tree is made of them afterwards, and every step of
that checks for the parts it needs.

* `Rule` — the named rules;
* `Part` — a match of a rule;
* `Part.tree` — the tree of a part, or what is wrong with it;
* `treeOf` — the tree of a statement.
-/

/-- The named rules, in the order in which the grammar declares them, the end of the line first. -/
inductive Rule where
  | endOfInput
  | number | identifier
  | add | subtract | multiply | divide | exponent | assign
  | openParen | closeParen | comma
  /-- All lexemes of a line. -/
  | tokens
  | statement | expression | sum | product | power | call | arguments
  deriving DecidableEq

namespace Rule

/-- All rules, in the order of their declaration. -/
def declared : List Rule :=
  [endOfInput, number, identifier, add, subtract, multiply, divide, exponent, assign,
    openParen, closeParen, comma, tokens, statement, expression, sum, product, power, call, arguments]

/-- The name of a rule. -/
def name : Rule → String
  | endOfInput => "EOI"
  | number => "number"
  | identifier => "identifier"
  | add => "add"
  | subtract => "subtract"
  | multiply => "multiply"
  | divide => "divide"
  | exponent => "exponent"
  | assign => "assign"
  | openParen => "open_paren"
  | closeParen => "close_paren"
  | comma => "comma"
  | tokens => "tokens"
  | statement => "statement"
  | expression => "expression"
  | sum => "sum"
  | product => "product"
  | power => "power"
  | call => "call"
  | arguments => "arguments"

/-- The operator that a rule stands for between two operands of a sum or a product. -/
def operator? : Rule → Option Operator
  | add => some .add
  | subtract => some .subtract
  | multiply => some .multiply
  | divide => some .divide
  | _ => none

end Rule

/-- A match of a rule: of a lexeme, with its text, or of a phrase, with the parts inside it. -/
inductive Part where
  | lexeme (rule : Rule) (text : List Char)
  | phrase (rule : Rule) (parts : List Part)

namespace Part

/-- The rule that was matched. -/
def rule : Part → Rule
  | lexeme rule _ => rule
  | phrase rule _ => rule

/-- The parts inside a match. -/
def parts : Part → List Part
  | lexeme _ _ => []
  | phrase _ parts => parts

/-- Whether a part is an operator that groups to the right. -/
def isRightSign (p : Part) : Bool :=
  p.rule == .assign || p.rule == .exponent

end Part

/-! ### Trees of parts -/

/-- The failure of a part that is not there. -/
def missing (what : String) : EngineError :=
  .other ("grammar produced no " ++ what)

/-- The first of some parts, which must be there. -/
def first (what : String) : List Part → Except EngineError Part
  | [] => .error (missing what)
  | p :: _ => .ok p

/-- Joins operands by an operator that groups to the right. -/
def foldRight (op : Operator) (operands : List Tree) : Except EngineError Tree :=
  match operands.reverse with
  | [] => .error (.other ("no operand for '" ++ op.symbol ++ "'"))
  | last :: before => .ok (before.foldl (fun t left => .node op left t) last)

mutual

/-- The tree of a part. -/
def Part.tree : Part → Except EngineError Tree
  | .phrase .expression parts => do foldRight .assign (← operandsOf parts)
  | .phrase .sum parts => leftChain parts
  | .phrase .product parts => leftChain parts
  | .phrase .power parts => do foldRight .exponent (← operandsOf parts)
  | .phrase .call parts => callOf parts
  | .phrase .arguments parts => argumentsOf parts
  | .lexeme .number text =>
    match Decimal.read? text with
    | some value => .ok (.number value)
    | none => .error (.other ("'" ++ String.ofList text ++ "' is not a number"))
  | .lexeme .identifier text => .ok (.identifier (String.ofList text))
  | p => .error (.other ("unexpected grammar rule " ++ p.rule.name))

/-- The operands among some parts, without the operators between them. -/
def operandsOf : List Part → Except EngineError (List Tree)
  | [] => .ok []
  | p :: ps =>
    if p.isRightSign then operandsOf ps
    else do
      let t ← p.tree
      return t :: (← operandsOf ps)

/-- The tree of operands with an operator between each two of them, grouped to the left. -/
def leftChain : List Part → Except EngineError Tree
  | [] => .error (missing "operand")
  | p :: ps => do leftChainFrom (← p.tree) ps

/-- Goes on from the tree `t` of the operands before with an operator and one more operand. -/
def leftChainFrom (t : Tree) : List Part → Except EngineError Tree
  | [] => .ok t
  | sign :: ps =>
    match sign.rule.operator? with
    | none => .error (.other ("unexpected operator rule " ++ sign.rule.name))
    | some op =>
      match ps with
      | [] => .error (missing "operand")
      | p :: ps => do leftChainFrom (.node op t (← p.tree)) ps

/-- The tree of a callee and its arguments. -/
def callOf : List Part → Except EngineError Tree
  | [] => .error (missing "callee")
  | callee :: ps => do
    let callee ← callee.tree
    match ps with
    | [] => throw (missing "arguments")
    | arguments :: _ => return .node .call callee (← arguments.tree)

/-- The chain of some arguments. -/
def argumentsOf : List Part → Except EngineError Tree
  | [] => .error (missing "argument")
  | p :: ps => do argumentsFrom (← p.tree) ps

/-- Goes on from the chain `t` of the arguments before. -/
def argumentsFrom (t : Tree) : List Part → Except EngineError Tree
  | [] => .ok t
  | p :: ps => do argumentsFrom (.node .comma t (← p.tree)) ps

end

/-- The tree of a statement, which must be the first of some parts and begin with an expression. -/
def treeOf (parts : List Part) : Except EngineError Tree := do
  let statement ← first "statement" parts
  let expression ← first "expression" statement.parts
  expression.tree

end ExprForest.Statement

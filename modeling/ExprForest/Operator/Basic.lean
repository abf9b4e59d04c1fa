namespace ExprForest

/-!
# Operators

The eight operators a nonterminal of a statement tree can carry:

* `Operator.symbol` — the text of the operator in the prefix form of a tree;
* `Operator.word` — its name in JSON;
* `Operator.code` — its number on the host's side: the code point of the symbol for the signs,
  `1` for a call;
* `Operator.ofCode` — reads such a number back.
-/

/-- A binary operator of a statement tree.  `comma` joins the arguments of a call, and `call` has
    the callee on its left and the arguments on its right. -/
inductive Operator where
  | add | subtract | multiply | divide | exponent | assign | comma | call
  deriving DecidableEq, Inhabited

namespace Operator

/-- Every operator, in the order in which their names are listed. -/
def all : List Operator :=
  [add, subtract, multiply, divide, exponent, assign, comma, call]

/-- `all` leaves none out. -/
theorem mem_all (op : Operator) : op ∈ all := by
  cases op <;> decide

/-- The text of the operator in the prefix form of a tree. -/
def symbol : Operator → String
  | add => "+"
  | subtract => "-"
  | multiply => "*"
  | divide => "/"
  | exponent => "^"
  | assign => "="
  | comma => ","
  | call => "call"

/-- The operator's name in JSON. -/
def word : Operator → String
  | add => "add"
  | subtract => "subtract"
  | multiply => "multiply"
  | divide => "divide"
  | exponent => "exponent"
  | assign => "assign"
  | comma => "comma"
  | call => "call"

/-- The operator with a given name, if there is one. -/
def ofWord? (name : String) : Option Operator :=
  all.find? fun op => op.word == name

/-- A name leads back to its operator. -/
@[simp] theorem ofWord?_word (op : Operator) : ofWord? op.word = some op := by
  cases op <;> decide

/-! ### Host codes -/

/-- The number a host uses for the operator: the code point of a sign, `1` for a call. -/
def code : Operator → Int
  | add => 43
  | subtract => 45
  | multiply => 42
  | divide => 47
  | exponent => 94
  | assign => 61
  | comma => 44
  | call => 1

/-- Two operators never share a code. -/
theorem code_injective {a b : Operator} (h : a.code = b.code) : a = b := by
  cases a <;> cases b <;> first | rfl | exact absurd h (by decide)

/-- The code that stands for "no operator".  It tags no nonterminal. -/
def noneCode : Int := 0

/-- Why a code names no operator. -/
inductive CodeError where
  /-- The code of "no operator". -/
  | none
  /-- A code outside the numbering. -/
  | unknown (code : Int)
  deriving DecidableEq

/-- The wording of a refused code. -/
def CodeError.message : CodeError → String
  | .none => "the no-operator sentinel cannot tag a nonterminal"
  | .unknown code => "unknown operator code " ++ toString code

/-- The operator with a given code. -/
def ofCode (n : Int) : Except CodeError Operator :=
  if n = noneCode then .error .none
  else
    match all.find? fun op => op.code == n with
    | some op => .ok op
    | none => .error (.unknown n)

/-- A code leads back to its operator. -/
@[simp] theorem ofCode_code (op : Operator) : ofCode op.code = .ok op := by
  cases op <;> rfl

end Operator

end ExprForest

import ExprForest.Json.Printer
import ExprForest.Tree.Build

namespace ExprForest.Tree

/-!
# Trees as JSON

Two JSON forms of a tree.

* `Kind` — the three shapes of a node, as the `kind` member of the first form names them;
* `toJson` — the form that is read back: objects with a `kind`, operators by name;
* `hostBuilder` — the form for hosts, operators by code: `{"left": …, "operator": 43, "right": …}`.
  It has no place for a number that is not finite, and it counts the nodes it makes;
* `toHost` — the host form of a list of trees, all or nothing.
-/

/-- The three shapes of a node. -/
inductive Kind where
  | nonterminal | number | identifier
  deriving DecidableEq

namespace Kind

/-- Every kind. -/
def all : List Kind := [nonterminal, number, identifier]

/-- The name of a kind. -/
def word : Kind → String
  | nonterminal => "nonterminal"
  | number => "number"
  | identifier => "identifier"

/-- The kind with a given name, if there is one. -/
def ofWord? (name : String) : Option Kind :=
  all.find? fun k => k.word == name

/-- A name leads back to its kind. -/
@[simp] theorem ofWord?_word (k : Kind) : ofWord? k.word = some k := by
  cases k <;> decide

end Kind

open Json (Value)

/-- A number as an object with its kind. -/
def numberJson (value : Float) : Value :=
  .object [("kind", .string Kind.number.word), ("value", .number (.float value))]

/-- A name as an object with its kind. -/
def identifierJson (name : String) : Value :=
  .object [("kind", .string Kind.identifier.word), ("name", .string name)]

/-- A node as an object with its kind. -/
def nodeJson (op : Operator) (left right : Value) : Value :=
  .object [("kind", .string Kind.nonterminal.word), ("op", .string op.word), ("left", left),
    ("right", right)]

/-- The tree as nested objects, each with its kind. -/
def toJson (t : Tree) : Value :=
  t.rebuild numberJson identifierJson nodeJson

/-! ### The form for hosts -/

/-- A number that is not finite has no host form. -/
structure NotFinite where
  value : Float

/-- The wording of a refused number. -/
def NotFinite.message (e : NotFinite) : String :=
  "number " ++ Decimal.Format.plain.text e.value ++ " has no JSON representation"

/-- Makes host nodes and counts those it made.  The members of an object stand in the order of their
    names. -/
def hostBuilder : Builder Nat NotFinite Value where
  number value built :=
    if value.isFinite then (.ok (.object [("number", .number (.float value))]), built + 1)
    else (.error ⟨value⟩, built)
  identifier name built := (.ok (.object [("id", .string name)]), built + 1)
  node op left right built :=
    (.ok (.object
      [("left", left), ("operator", .number (.unsigned op.code.toNat)), ("right", right)]),
      built + 1)

/-- The host forms of a list of trees behind those already made, which are listed last first. -/
def toHostFrom (made : List Value) (built : Nat) : List Tree → Except NotFinite Value
  | [] => .ok (.array made.reverse)
  | t :: ts =>
    match t.build hostBuilder built with
    | (.ok v, built) => toHostFrom (v :: made) built ts
    | (.error e, _) => .error e

/-- The array of the host forms of a list of trees, or the first number that has none. -/
def toHost (trees : List Tree) : Except NotFinite Value :=
  toHostFrom [] 0 trees

end ExprForest.Tree

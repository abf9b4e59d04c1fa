import ExprForest.Json.Read
import ExprForest.Tree.Encode

namespace ExprForest.Tree

/-!
# Trees read from JSON

A tree is an object with a `kind` and the members of that kind in any order, or an array of the kind
and its members in their order.  Members of other names are passed over.  What stands beside the kind
is collected first and looked at afterwards, so faults in it have no position of their own.

* `ofValue` — the tree that a JSON value describes;
* `reader` — reads a tree from a text, whose brackets nest no deeper than a limit.
-/

open Json (Value Mismatch Found Reader)

/-- The tree as it is named in messages. -/
def expected : String := "internally tagged enum Ast"

/-! ### Parts -/

/-- A kind, by its name or by its place in the list of kinds. -/
def Kind.ofValue : Value → Except Mismatch Kind
  | .string name =>
    match ofWord? name with
    | some k => .ok k
    | none => .error (.unknownVariant name (all.map word))
  | .number (.unsigned n) =>
    match all[n]? with
    | some k => .ok k
    | none => .error (.invalidValue (.number (.unsigned n)) "variant index 0 <= i < 3")
  | v => .error (.invalidType (.of v) "variant identifier")

/-- The kind among the members of an object, which must occur once. -/
def Kind.ofMembers (found : Option Kind) : List (String × Value) → Except Mismatch Kind
  | [] =>
    match found with
    | some k => .ok k
    | none => .error (.missingField "kind")
  | (name, v) :: ms =>
    if name = "kind" then
      match found with
      | some _ => .error (.duplicateField "kind")
      | none =>
        match Kind.ofValue v with
        | .ok k => Kind.ofMembers (some k) ms
        | .error m => .error m
    else Kind.ofMembers found ms

/-- The operator with a given name. -/
def operatorOfWord (name : String) : Except Mismatch Operator :=
  match Operator.ofWord? name with
  | some op => .ok op
  | none => .error (.unknownVariant name (Operator.all.map Operator.word))

/-- An operator: its name, or an object whose only member has that name and no content. -/
def operatorOfValue : Value → Except Mismatch Operator
  | .string name => operatorOfWord name
  | .object [(name, v)] => do
    let op ← operatorOfWord name
    match v with
    | .null => return op
    | .object [] => return op
    | v => throw (.invalidType (.of v) "unit")
  | .object _ => .error (.invalidValue .map "map with a single key")
  | v => .error (.invalidType (.of v) "string or map")

/-- A number. -/
def floatOfValue : Value → Except Mismatch Float
  | .number n => .ok n.toFloat
  | v => .error (.invalidType (.of v) "f64")

/-- A name. -/
def nameOfValue : Value → Except Mismatch String
  | .string s => .ok s
  | v => .error (.invalidType (.of v) "a string")

/-- A leaf with a single member, among the members of an object. -/
def leafOfMembers {α : Type} (field : String) (read : Value → Except Mismatch α) (found : Option α) :
    List (String × Value) → Except Mismatch α
  | [] =>
    match found with
    | some x => .ok x
    | none => .error (.missingField field)
  | (name, v) :: ms =>
    if name = field then
      match found with
      | some _ => .error (.duplicateField field)
      | none =>
        match read v with
        | .ok x => leafOfMembers field read (some x) ms
        | .error m => .error m
    else leafOfMembers field read found ms

/-- An array that holds too many items for a tree. -/
def surplus (expected found : Nat) : Mismatch :=
  .invalidLength found
    (toString expected ++ (if expected = 1 then " element" else " elements") ++ " in sequence")

/-- A leaf with a single member, as the only item of an array. -/
def leafOfItems {α : Type} (variant : String) (read : Value → Except Mismatch α) :
    List Value → Except Mismatch α
  | [] => .error (.invalidLength 0 ("struct variant Ast::" ++ variant ++ " with 1 element"))
  | v :: more => do
    let x ← read v
    match more with
    | [] => return x
    | _ => throw (surplus 1 (1 + more.length))

/-- A node of which some parts are missing. -/
def shortNode (found : Nat) : Mismatch :=
  .invalidLength found "struct variant Ast::Nonterminal with 3 elements"

/-! ### Trees -/

mutual

/-- The tree that a JSON value describes. -/
def ofValue : Value → Except Mismatch Tree
  | .array [] => .error (.missingField "kind")
  | .array (kind :: items) => do
    match ← Kind.ofValue kind with
    | .number => return number (← leafOfItems "Number" floatOfValue items)
    | .identifier => return identifier (← leafOfItems "Identifier" nameOfValue items)
    | .nonterminal => nodeOfItems items
  | .object members => do
    match ← Kind.ofMembers none members with
    | .number => return number (← leafOfMembers "value" floatOfValue none members)
    | .identifier => return identifier (← leafOfMembers "name" nameOfValue none members)
    | .nonterminal => nodeOfMembers none none none members
  | v => .error (.invalidType (.of v) expected)

/-- A node from the items of an array behind its kind. -/
def nodeOfItems : List Value → Except Mismatch Tree
  | [] => .error (shortNode 0)
  | [op] => do
    let _ ← operatorOfValue op
    throw (shortNode 1)
  | [op, left] => do
    let _ ← operatorOfValue op
    let _ ← ofValue left
    throw (shortNode 2)
  | op :: left :: right :: more => do
    let op ← operatorOfValue op
    let left ← ofValue left
    let right ← ofValue right
    match more with
    | [] => return node op left right
    | _ => throw (surplus 3 (3 + more.length))

/-- A node from the members of an object, given the parts that were met before. -/
def nodeOfMembers (op : Option Operator) (left right : Option Tree) :
    List (String × Value) → Except Mismatch Tree
  | [] =>
    match op, left, right with
    | some op, some left, some right => .ok (node op left right)
    | none, _, _ => .error (.missingField "op")
    | _, none, _ => .error (.missingField "left")
    | _, _, none => .error (.missingField "right")
  | (name, v) :: ms => do
    if name = "op" then
      if op.isSome then throw (.duplicateField name)
      nodeOfMembers (some (← operatorOfValue v)) left right ms
    else if name = "left" then
      if left.isSome then throw (.duplicateField name)
      nodeOfMembers op (some (← ofValue v)) right ms
    else if name = "right" then
      if right.isSome then throw (.duplicateField name)
      nodeOfMembers op left (some (← ofValue v)) ms
    else nodeOfMembers op left right ms

end

/-! ### Texts -/

/-- What stands beside the kind of a tree. -/
inductive Body where
  | items (values : List Value)
  | members (values : List (String × Value))

/-- The tree of a kind with a body. -/
def ofBody (kind : Kind) : Body → Except Mismatch Tree
  | .items values =>
    match kind with
    | .number => number <$> leafOfItems "Number" floatOfValue values
    | .identifier => identifier <$> leafOfItems "Identifier" nameOfValue values
    | .nonterminal => nodeOfItems values
  | .members values =>
    match kind with
    | .number => number <$> leafOfMembers "value" floatOfValue none values
    | .identifier => identifier <$> leafOfMembers "name" nameOfValue none values
    | .nonterminal => nodeOfMembers none none none values

/-- Reads the name of a kind. -/
def Kind.reader : Reader Kind :=
  Reader.chosen (all.map word) ofWord?

/-- Reads the kind and the other items of an array. -/
def readItems (depth : Nat) : Reader (Kind × Body) := do
  if ← Reader.another true then
    let kind ← Kind.reader
    return (kind, .items (← Reader.items (Reader.value depth) false))
  else Reader.unfit (.missingField "kind")

/-- Reads a member of an object, behind the kind, if it was met, and the other members, which are
    listed last first. -/
def readMember (depth : Nat) (earlier : Option Kind × List (String × Value)) (name : String) :
    Reader (Option Kind × List (String × Value)) := do
  let (kind, members) := earlier
  if name = "kind" then
    if kind.isSome then Reader.unfit (.duplicateField "kind")
    else
      Reader.colon
      return (some (← Kind.reader), members)
  else
    Reader.colon
    return (kind, (name, ← Reader.value depth) :: members)

/-- Reads the kind and the other members of an object. -/
def readMembers (depth : Nat) : Reader (Kind × Body) := do
  match ← Reader.members (readMember depth) (none, []) with
  | (some kind, members) => return (kind, .members members.reverse)
  | (none, _) => Reader.unfit (.missingField "kind")

/-- Reads a tree whose brackets nest at most `depth` deep. -/
def reader (depth : Nat) : Reader Tree := do
  match ← Reader.peek with
  | none => Reader.unfinished .value
  | some ch =>
    if ch = '[' ∨ ch = '\x7b' then
      let (kind, body) ← Reader.deeper depth fun depth =>
        if ch = '[' then Reader.enclosed .square (readItems depth)
        else Reader.enclosed .curly (readMembers depth)
      match ofBody kind body with
      | .ok t => return t
      | .error m => Reader.unfit m
    else Reader.refuse ch expected

/-- The tree that a JSON text describes. -/
def ofJson (text : String) : Except Json.Error Tree :=
  (reader Json.levels).readAll text

end ExprForest.Tree

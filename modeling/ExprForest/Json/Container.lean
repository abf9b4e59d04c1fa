import ExprForest.Json.Literal

namespace ExprForest.Json

/-!
# Arrays and objects

The parts of arrays and objects that do not depend on what the items and members are.

* `Bracket` — the two kinds of brackets, and the search for the closing one;
* `Reader.enclosed` — what stands between two brackets.  Unfit content between them is placed where the
  closing bracket was looked for;
* `Reader.another` — whether an array has one more item;
* `Reader.items` — all items of an array;
* `Reader.nextName` — the name of the next member of an object.
-/

/-- The two kinds of brackets. -/
inductive Bracket where
  | square
  | curly
  deriving DecidableEq

/-- The opening bracket. -/
def Bracket.opening : Bracket → Char
  | square => '['
  | curly => '\x7b'

/-- The closing bracket. -/
def Bracket.closing : Bracket → Char
  | square => ']'
  | curly => '\x7d'

/-- What is unfinished without the closing bracket. -/
def Bracket.whole : Bracket → Unfinished
  | square => .list
  | curly => .object

/-- Looks for the closing bracket.  Gives where the search ended, and why it failed, if it did.
    Behind a comma in an array the search goes on, to tell a trailing comma from a further item. -/
def Bracket.close (b : Bracket) (c : Cursor) : Option Error × Cursor :=
  let c := c.skipBlanks
  match c.rest with
  | [] => (some ⟨.unfinished b.whole, some c.position⟩, c)
  | ch :: _ =>
    if ch = b.closing then (none, c.tail)
    else if ch = ',' then
      match b with
      | .curly => (some ⟨.fault .trailingComma, some c.ahead⟩, c)
      | .square =>
        let c := c.tail.skipBlanks
        let f : Fault := if c.rest.head? = some ']' then .trailingComma else .trailingCharacters
        (some ⟨.fault f, some c.ahead⟩, c)
    else (some ⟨.fault .trailingCharacters, some c.ahead⟩, c)

namespace Reader

variable {α σ : Type}

/-- Reads what stands behind an opening bracket, and the closing one. -/
def enclosed (b : Bracket) (body : Reader α) : Reader α :=
  fun c =>
    match body c with
    | .stop e => .stop e
    | .unfit m c => stopAt (.mismatch m) (b.close c).2.position
    | .done x c =>
      match b.close c with
      | (some e, _) => .stop e
      | (none, c) => .done x c

/-! ### Items -/

/-- Whether an array has one more item, which is then ahead.  All but the first stand behind a
    comma. -/
def another (first : Bool) : Reader Bool := do
  match ← peek with
  | none => unfinished .list
  | some ch =>
    if ch = ']' then return false
    else if first then return true
    else if ch = ',' then
      drop
      match ← peek with
      | none => unfinished .value
      | some ch => if ch = ']' then fault .trailingComma else return true
    else fault .expectedCommaOrBracket

/-- Reads items of an array behind those already read, which are listed last first.  An item takes up
    text, so there are no more items than characters in `room`, the text before the first of them. -/
def itemsFrom (item : Reader α) (read : List α) (first : Bool) :
    List Char → Cursor → Result (List α)
  | [], c => .done read.reverse c
  | _ :: room, c =>
    match another first c with
    | .stop e => .stop e
    | .unfit m c => .unfit m c
    | .done false c => .done read.reverse c
    | .done true c =>
      match item c with
      | .stop e => .stop e
      | .unfit m c => .unfit m c
      | .done x c => itemsFrom item (x :: read) false room c

/-- Reads the items of an array up to its closing bracket.  If not `first`, all of them stand behind a
    comma. -/
def items (item : Reader α) (first : Bool) : Reader (List α) :=
  fun c => itemsFrom item [] first (' ' :: c.rest) c

/-! ### Members -/

/-- The name of the next member of an object, if there is one.  All but the first stand behind a
    comma. -/
def nextName (first : Bool) : Reader (Option String) := do
  let name : Reader (Option String) := do
    drop
    return some (← Literal.read)
  match ← peek with
  | none => unfinished .object
  | some ch =>
    if ch = '\x7d' then return none
    else if first then
      if ch = '"' then name else fault .keyMustBeString
    else if ch = ',' then
      drop
      match ← peek with
      | none => unfinished .value
      | some ch =>
        if ch = '"' then name
        else if ch = '\x7d' then fault .trailingComma
        else fault .keyMustBeString
    else fault .expectedCommaOrBrace

/-- Reads the colon behind a name. -/
def colon : Reader Unit := do
  match ← peek with
  | none => unfinished .object
  | some ch => if ch = ':' then drop else fault .expectedColon

/-- Reads the members of an object one after another.  `member` is given what the members before gave
    and the name.  A member takes up text, so there are no more members than characters in `room`, the
    text before the first of them. -/
def membersFrom (member : σ → String → Reader σ) (state : σ) (first : Bool) :
    List Char → Cursor → Result σ
  | [], c => .done state c
  | _ :: room, c =>
    match nextName first c with
    | .stop e => .stop e
    | .unfit m c => .unfit m c
    | .done none c => .done state c
    | .done (some name) c =>
      match member state name c with
      | .stop e => .stop e
      | .unfit m c => .unfit m c
      | .done state c => membersFrom member state false room c

/-- Reads the members of an object up to its closing bracket. -/
def members (member : σ → String → Reader σ) (state : σ) : Reader σ :=
  fun c => membersFrom member state true (' ' :: c.rest) c

end Reader

end ExprForest.Json

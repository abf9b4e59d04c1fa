import ExprForest.Json.Read

namespace ExprForest.Json.Reader

/-!
# Passing over values

A member that nobody asked for is passed over: its text must be JSON, but brackets may nest to any
depth and no number is out of range.

* `toNext` — goes on from one value to the next, inside the brackets that are open;
* `skipFrom` — passes over values until no bracket is open;
* `skip` — passes over one value.
-/

/-- Passes over a value without parts that starts with a given character. -/
def skipScalar (ch : Char) : Reader Unit := do
  if ch = '-' then
    drop
    Numeral.pass
  else if ch.isDigit then Numeral.pass
  else if ch = '"' then
    drop
    Literal.pass
  else
    let _ ← scalar ch

/-- Passes over the name of a member and the colon behind it. -/
def skipName : Reader Unit := do
  match ← peek with
  | none => unfinished .object
  | some ch =>
    if ch = '"' then
      drop
      Literal.pass
      colon
    else fault .keyMustBeString

/-- Goes on to the next value, inside the open brackets, the innermost first.  `behind` tells whether a
    value stands right before.  Gives the brackets that are open around the next value, or `none` if
    there is no further value. -/
def toNext (behind : Bool) (opened : List Bracket) (c : Cursor) : Result (List Bracket) :=
  match opened with
  | [] => .done [] c
  | b :: outer =>
    let c := c.skipBlanks
    match c.rest with
    | [] => unfinished b.whole c
    | ch :: _ =>
      if ch = b.closing then toNext true outer c.tail
      else
        let onward : Reader (List Bracket) := do
          match b with
          | .curly => skipName
          | .square => pure ()
          return b :: outer
        if !behind then onward c
        else if ch = ',' then onward c.tail
        else
          match b with
          | .square => fault .expectedCommaOrBracket c
          | .curly => fault .expectedCommaOrBrace c

/-- Passes over the value ahead, or its opening bracket.  Tells whether a whole value was passed over,
    and which brackets are open behind it. -/
def skipStart (opened : List Bracket) : Reader (Bool × List Bracket) := do
  match ← peek with
  | none => unfinished .value
  | some ch =>
    if ch = '[' then
      drop
      return (false, .square :: opened)
    else if ch = '\x7b' then
      drop
      return (false, .curly :: opened)
    else
      skipScalar ch
      return (true, opened)

/-- Passes over the value ahead and all that follows inside the open brackets.  Each round takes up text,
    so there are no more rounds than characters in `room`, the text before the first. -/
def skipFrom (opened : List Bracket) : List Char → Cursor → Result Unit
  | [], c => .done () c
  | _ :: room, c =>
    match skipStart opened c with
    | .stop e => .stop e
    | .unfit m c => .unfit m c
    | .done (behind, opened) c =>
      match toNext behind opened c with
      | .stop e => .stop e
      | .unfit m c => .unfit m c
      | .done [] c => .done () c
      | .done opened c => skipFrom opened room c

/-- Passes over one value. -/
def skip : Reader Unit :=
  fun c => skipFrom [] (' ' :: c.rest) c

end ExprForest.Json.Reader

import ExprForest.Json.Container
import ExprForest.Json.Numeral

namespace ExprForest.Json

/-!
# Reading JSON

* `Reader.scalar` — a value without parts;
* `Reader.value` — any value, whose brackets nest no deeper than a limit;
* `Reader.refuse` — refuses a value of the wrong type, by what it is;
* `levels` — how deep brackets may nest.

Assumed of the JSON library: what a value is, is told by the first byte behind blanks; brackets nest at most
127 deep, and the one that is too deep is refused before it is read; words, whole numbers and truth values are
read by their own readers, which refuse other values with the type that was asked for.
-/

/-- How deep brackets may nest. -/
def levels : Nat := 127

/-- A value as it is named in a message. -/
def Found.of : Value → Found
  | .null => .null
  | .bool b => .bool b
  | .number n => .number n
  | .string s => .string s
  | .array _ => .sequence
  | .object _ => .map

namespace Reader

variable {α : Type}

/-- Reads the letters of a word. -/
def word (letters : List Char) : Reader Unit :=
  match letters with
  | [] => pure ()
  | l :: ls => fun c =>
    match c.rest with
    | [] => unfinished .value c
    | ch :: _ => if ch = l then word ls c.tail else fault .expectedIdent c

/-- Reads the value without parts that starts with a given character, which is ahead. -/
def scalar (ch : Char) : Reader Value := do
  if ch = 'n' then
    word ['n', 'u', 'l', 'l']
    return .null
  else if ch = 't' then
    word ['t', 'r', 'u', 'e']
    return .bool true
  else if ch = 'f' then
    word ['f', 'a', 'l', 's', 'e']
    return .bool false
  else if ch = '-' then
    drop
    return .number (← Numeral.read true)
  else if ch.isDigit then return .number (← Numeral.read false)
  else if ch = '"' then
    drop
    return .string (← Literal.read)
  else fault .expectedValue

/-- Reads an opening bracket and goes on one level deeper, if that is allowed. -/
def deeper (depth : Nat) (inner : Nat → Reader α) : Reader α :=
  match depth with
  | 0 => fault .recursionLimit
  | depth + 1 => do
    drop
    inner depth

/-- Reads any value, whose brackets nest at most `depth` deep. -/
def value (depth : Nat) : Reader Value := do
  match ← peek with
  | none => unfinished .value
  | some ch =>
    match depth with
    | 0 => if ch = '[' ∨ ch = '\x7b' then fault .recursionLimit else scalar ch
    | depth + 1 =>
      if ch = '[' then
        drop
        return .array (← enclosed .square (items (value depth) true))
      else if ch = '\x7b' then
        drop
        let member (earlier : List (String × Value)) (name : String) :
            Reader (List (String × Value)) := do
          colon
          return (name, ← value depth) :: earlier
        return .object (← enclosed .curly (members member [])).reverse
      else scalar ch

/-- Refuses the value ahead because something else was asked for. -/
def refuse (ch : Char) (expected : String) : Reader α :=
  settle do
    let found : Found ←
      if ch = '[' then pure .sequence
      else if ch = '\x7b' then pure .map
      else Found.of <$> scalar ch
    unfit (.invalidType found expected)

/-! ### Single values of a given type -/

/-- Reads a whole number of 64 bits. -/
def natural : Reader Nat := do
  match ← peek with
  | none => unfinished .value
  | some ch =>
    if ch = '-' ∨ ch.isDigit then
      settle do
        match ← scalar ch with
        | .number (.unsigned n) => return n
        | .number (.negative n) => unfit (.invalidValue (.number (.negative n)) "usize")
        | v => unfit (.invalidType (.of v) "usize")
    else refuse ch "usize"

/-- Reads a truth value. -/
def boolean : Reader Bool := do
  match ← peek with
  | none => unfinished .value
  | some ch =>
    if ch = 't' ∨ ch = 'f' then
      match ← scalar ch with
      | .bool b => return b
      | v => unfit (.invalidType (.of v) "a boolean")
    else refuse ch "a boolean"

/-- Reads a word and what it stands for. -/
def chosen (choices : List String) (meaning : String → Option α) : Reader α := do
  match ← peek with
  | none => unfinished .value
  | some ch =>
    if ch = '"' then
      settle do
        drop
        let name ← Literal.read
        match meaning name with
        | some x => return x
        | none => unfit (.unknownVariant name choices)
    else refuse ch "variant identifier"

/-- Reads `null`. -/
def unit : Reader Unit := do
  match ← peek with
  | none => unfinished .value
  | some ch =>
    if ch = 'n' then word ['n', 'u', 'l', 'l'] else refuse ch "unit"

/-- Reads the blanks before the only name of an object.  No other member may stand there, and the object
    may not be empty. -/
def onlyName : Reader Unit := do
  match ← peek with
  | none => unfinished .object
  | some ch =>
    if ch = '"' then return ()
    else if ch = '\x7d' then fault .expectedValue
    else fault .keyMustBeString

/-- Reads one of several words: the word as a string, or an object whose only member has the word for
    its name and `null` for its value. -/
def enumeration (choices : List String) (meaning : String → Option α) : Reader α := do
  match ← peek with
  | none => unfinished .value
  | some ch =>
    if ch = '"' then chosen choices meaning
    else if ch = '\x7b' then
      drop
      onlyName
      let x ← chosen choices meaning
      colon
      unit
      match ← peek with
      | none => unfinished .object
      | some ch =>
        if ch = '\x7d' then
          drop
          return x
        else fun c => stopAt (.fault .expectedValue) c.position
    else fault .expectedValue

end Reader

end ExprForest.Json

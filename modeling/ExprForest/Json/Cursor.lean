import ExprForest.Json.Error

namespace ExprForest.Json

/-!
# Reading position and results

* `Cursor` — what is left of a text and where it starts;
* `Cursor.ahead` — the position of the next byte, at which most faults are noticed;
* `Result` — what a reader gives: a value, unfit content whose position its surroundings settle, or
  an error;
* `Reader` — a step from a cursor to a result.

The modules of `ExprForest.Json` write out how a JSON library reads and writes, which is assumed and not
derived from anything.  Assumed here: a text is read once, from its start; a fault is placed behind the byte
that shows it, where lines count from one and columns are the bytes since the last line feed; unfit content
is placed where its value ends, or by the brackets around it, or not at all; and behind the value of a whole
text only blanks may stand.
-/

/-- What is left of a text, with the line and the number of bytes already read on it. -/
structure Cursor where
  rest : List Char
  line : Nat
  column : Nat

namespace Cursor

/-- The start of a text. -/
def start (text : String) : Cursor :=
  ⟨text.toList, 1, 0⟩

/-- The position behind what was read. -/
def position (c : Cursor) : Position :=
  ⟨c.line, c.column⟩

/-- The cursor behind the next character. -/
def tail (c : Cursor) : Cursor :=
  match c.rest with
  | [] => c
  | '\n' :: cs => ⟨cs, c.line + 1, 0⟩
  | ch :: cs => ⟨cs, c.line, c.column + ch.utf8Size⟩

/-- The position behind the next byte, or the end. -/
def ahead (c : Cursor) : Position :=
  match c.rest with
  | [] => c.position
  | '\n' :: _ => ⟨c.line + 1, 0⟩
  | _ => ⟨c.line, c.column + 1⟩

/-- The cursor behind `n` characters of one byte, none of them a line feed. -/
def skip (n : Nat) (c : Cursor) : Cursor :=
  ⟨c.rest.drop n, c.line, c.column + n⟩

/-- The position behind so many bytes, or the end if there are fewer. -/
def positionBehind (line column : Nat) : List Char → Nat → Position
  | [], _ => ⟨line, column⟩
  | _, 0 => ⟨line, column⟩
  | ch :: cs, n + 1 =>
    if ch = '\n' then positionBehind (line + 1) 0 cs n
    else if ch.utf8Size ≤ n + 1 then
      positionBehind line (column + ch.utf8Size) cs (n + 1 - ch.utf8Size)
    else ⟨line, column + (n + 1)⟩

/-- The position behind the next `n` bytes. -/
def behind (c : Cursor) (n : Nat) : Position :=
  positionBehind c.line c.column c.rest n

/-- The run of digits ahead, and the cursor behind it. -/
def digits (c : Cursor) : List Char × Cursor :=
  let run := c.rest.takeWhile Char.isDigit
  (run, c.skip run.length)

/-- Whether a character may stand between the parts of a JSON text. -/
def isBlank (ch : Char) : Bool :=
  ch == ' ' || ch == '\n' || ch == '\t' || ch == '\r'

/-- The cursor behind the blanks at the head of a text. -/
def skipBlanksFrom (line column : Nat) : List Char → Cursor
  | [] => ⟨[], line, column⟩
  | ch :: cs =>
    if ch = '\n' then skipBlanksFrom (line + 1) 0 cs
    else if isBlank ch then skipBlanksFrom line (column + 1) cs
    else ⟨ch :: cs, line, column⟩

/-- The cursor behind the blanks ahead. -/
def skipBlanks (c : Cursor) : Cursor :=
  skipBlanksFrom c.line c.column c.rest

end Cursor

/-- What a reader gives. -/
inductive Result (α : Type) where
  /-- A value, and what is left of the text. -/
  | done (value : α) (rest : Cursor)
  /-- Unfit content, noticed at a cursor.  Its position is settled by the value around it. -/
  | unfit (m : Mismatch) (rest : Cursor)
  /-- The text is refused. -/
  | stop (e : Error)

/-- A step from a cursor to a result. -/
def Reader (α : Type) := Cursor → Result α

namespace Reader

variable {α β : Type}

/-- Reads nothing. -/
protected def pure (x : α) : Reader α :=
  fun c => .done x c

/-- Reads one thing after another. -/
protected def bind (r : Reader α) (f : α → Reader β) : Reader β :=
  fun c =>
    match r c with
    | .done x c => f x c
    | .unfit m c => .unfit m c
    | .stop e => .stop e

instance : Monad Reader where
  pure := Reader.pure
  bind := Reader.bind

/-- Refuses the text for a cause at a position. -/
def stopAt (cause : Cause) (p : Position) : Result α :=
  .stop ⟨cause, some p⟩

/-- Refuses the text because of the next character. -/
def fault (f : Fault) : Reader α :=
  fun c => stopAt (.fault f) c.ahead

/-- Refuses the text because it ends here. -/
def unfinished (u : Unfinished) : Reader α :=
  fun c => stopAt (.unfinished u) c.position

/-- Unfit content. -/
def unfit (m : Mismatch) : Reader α :=
  fun c => .unfit m c

/-- The next character behind blanks, which are read while it is not. -/
def peek : Reader (Option Char) :=
  fun c =>
    let c := c.skipBlanks
    .done c.rest.head? c

/-- Reads the next character. -/
def drop : Reader Unit :=
  fun c => .done () c.tail

/-- Gives unfit content the position behind what was read. -/
def settle (r : Reader α) : Reader α :=
  fun c =>
    match r c with
    | .unfit m c => stopAt (.mismatch m) c.position
    | result => result

/-- Reads a whole text.  Only blanks may follow the value; unfit content that nothing around it has
    placed has no position. -/
def readAll (r : Reader α) (text : String) : Except Error α :=
  match r (.start text) with
  | .stop e => .error e
  | .unfit m _ => .error ⟨.mismatch m, none⟩
  | .done x c =>
    let c := c.skipBlanks
    match c.rest with
    | [] => .ok x
    | _ :: _ => .error ⟨.fault .trailingCharacters, some c.ahead⟩

end Reader

end ExprForest.Json

import ExprForest.Line
import ExprForest.ParseError.Basic

namespace ExprForest.ParseError

/-!
# Framed excerpts

The lines of a source around a label, with the label drawn under or beside them.

* `Row` — a line of a source with the byte behind its end;
* `Frame.shown` — the rows that a label falls on, with one more on either side;
* `Frame.share?` — the part of the label that falls on a row;
* `Frame.draw` — the text of the excerpt.  A label inside one row is drawn under it, one that spreads over
  several rows along a gutter to their left.  Characters are as wide as those of ASCII.
-/

/-- A line of a source with the byte behind its end. -/
structure Row where
  line : Line
  stop : Nat

namespace Row

/-- The rows of a source. -/
def ofSource (source : String) : List Row :=
  let lines := Line.split source
  lines.zipWith Row.mk ((lines.drop 1).map Line.offset ++ [source.utf8ByteSize])

/-- The byte behind the text of the row, where the end of the line begins. -/
def textStop (r : Row) : Nat :=
  r.line.offset + r.line.text.utf8ByteSize

end Row

/-- The column behind a character that starts at `column`.  Tabs go on to the next multiple of four, and
    control characters take no room. -/
def columnBehind (column : Nat) (c : Char) : Nat :=
  if c = '\t' then column + (4 - column % 4)
  else if c.toNat < 0x20 ∨ c.toNat = 0x7f then column
  else column + 1

/-- The column behind the first `bytes` bytes of a text that starts at `column`.  Bytes behind the text take
    one column.  A character that is cut counts if `up`. -/
def columnAfter (up : Bool) (column : Nat) : List Char → Nat → Nat
  | _, 0 => column
  | [], _ + 1 => column + 1
  | c :: cs, n + 1 =>
    if c.utf8Size ≤ n + 1 then columnAfter up (columnBehind column c) cs (n + 1 - c.utf8Size)
    else if up then columnBehind column c
    else column

/-- So many blanks. -/
def blanks (n : Nat) : String :=
  String.ofList (List.replicate n ' ')

/-- So many strokes of an underline. -/
def strokes (n : Nat) : String :=
  String.ofList (List.replicate n '─')

/-- A text with its tabs written as blanks. -/
def withoutTabs (text : String) : String :=
  let step : String × Nat → Char → String × Nat := fun (out, column) c =>
    let next := columnBehind column c
    (if c = '\t' then out ++ blanks (next - column) else out.push c, next)
  (text.toList.foldl step ("", 0)).1

/-- The bytes behind the line feeds of a text that starts at byte `offset`, behind those already found,
    which are listed last first. -/
def behindFeedsFrom (found : List Nat) (offset : Nat) : List Char → List Nat
  | [] => found.reverse
  | c :: cs =>
    let next := offset + c.utf8Size
    behindFeedsFrom (if c = '\n' then next :: found else found) next cs

/-- A label under a stretch of a source. -/
structure Frame where
  source : Source
  offset : Nat
  length : Nat
  label : String

/-- The part of a label that falls on a row. -/
inductive Share where
  /-- The label lies on this row alone. -/
  | whole
  | first
  | middle
  | last
  deriving DecidableEq

namespace Frame

/-- The byte behind the label. -/
def stop (f : Frame) : Nat :=
  f.offset + f.length

/-- Whether the label lies in its source.  Its last byte may stand right behind the end. -/
def isReadable (f : Frame) : Bool :=
  f.offset ≤ f.source.text.utf8ByteSize && f.stop ≤ f.source.text.utf8ByteSize + 1

/-- The bytes up to the start of the label at which lines start, but for the first line. -/
def startsBefore (f : Frame) : List Nat :=
  (behindFeedsFrom [] 0 f.source.text.toList).takeWhile (· ≤ f.offset)

/-- The rows that the label falls on, with one more on either side, where there are such rows.  A label
    right behind a final line feed falls on no row. -/
def shown (f : Frame) : List Row :=
  let rows := Row.ofSource f.source.text
  let covered := rows.countP fun r => r.textStop < max 1 f.stop
  (rows.take (covered + 2)).drop (f.startsBefore.length - 1)

/-- The part of the label that falls on a row. -/
def share? (f : Frame) (r : Row) : Option Share :=
  if f.offset < r.line.offset then
    if r.stop < f.stop then some .middle
    else if r.line.offset < f.stop then some .last
    else none
  else if f.offset < r.stop then
    if f.stop ≤ r.stop then some .whole else some .first
  else none

/-- Whether the label spreads over several rows. -/
def spreads (f : Frame) (rows : List Row) : Bool :=
  rows.any fun r =>
    match f.share? r with
    | some .whole | none => false
    | _ => true

/-- What stands to the left of a row beside a label that spreads. -/
def gutter : Option Share → String
  | some .first => "╭─▶ "
  | some .middle => "│   "
  | some .last => "├─▶ "
  | _ => "    "

/-- The columns of a row over which the label is drawn. -/
def columns (f : Frame) (r : Row) : Nat × Nat :=
  let text := r.line.text.toList
  let start := columnAfter false 0 text (f.offset - r.line.offset)
  let stop :=
    if f.length = 0 then start + 1
    else max (columnAfter true 0 text (f.stop - r.line.offset)) (start + 1)
  (start, stop)

/-- The lines drawn under a row, behind a margin of `width` digits.  Under a label inside the row stands a
    wedge if it is empty, and otherwise strokes with a branch in the middle. -/
def marks (f : Frame) (width : Nat) (r : Row) : List String :=
  let margin := blanks (width + 2) ++ "· "
  match f.share? r with
  | some .whole =>
    let (start, stop) := f.columns r
    let middle := (start + stop) / 2
    let branch := if f.length = 0 then "▲" else "┬"
    [margin ++ blanks start ++ strokes (middle - start) ++ branch ++ strokes (stop - middle - 1),
      margin ++ blanks middle ++ "╰── " ++ f.label]
  | some .last => [margin ++ "╰──── " ++ f.label]
  | _ => []

/-- A row behind its number, which is set to the right of `width` columns. -/
def numbered (width : Nat) (gutter : String) (r : Row) : String :=
  let number := toString r.line.number
  " " ++ blanks (width - number.length) ++ number ++ " │ " ++ gutter ++ withoutTabs r.line.text

/-- The line above the rows: the name of the source with the line and the byte of the label's start. -/
def header (f : Frame) (width : Nat) : String :=
  let starts := f.startsBefore
  blanks (width + 2) ++ "╭─[" ++ f.source.name ++ ":" ++ toString (starts.length + 1) ++ ":" ++
    toString (f.offset - starts.getLastD 0 + 1) ++ "]"

/-- What stands in the place of an excerpt if the label does not lie in its source. -/
def unreadable (f : Frame) : String :=
  "  [Failed to read contents for label `" ++ f.label ++ "` (offset: " ++ toString f.offset ++
    ", length: " ++ toString f.length ++ "): OutOfBounds]"

/-- The lines of the excerpt. -/
def draw (f : Frame) : List String :=
  if f.isReadable then
    let rows := f.shown
    let width := (toString ((rows.getLast?.map fun r => r.line.number).getD 0)).length
    let spread := f.spreads rows
    let body := rows.flatMap fun r =>
      numbered width (if spread then gutter (f.share? r) else "") r :: f.marks width r
    f.header width :: body ++ [blanks (width + 2) ++ "╰────"]
  else [f.unreadable]

end Frame

end ExprForest.ParseError

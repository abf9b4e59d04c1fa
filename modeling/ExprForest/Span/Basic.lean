import ExprForest.Text.Column

namespace ExprForest

/-!
# Spans

Where something stands in a text: lines and columns count from one, columns in characters; `offset`
and `length` are bytes.

* `Span.point` — an empty span in a line;
* `Span.cover` — a span over bytes of a line, whose last column is that of its last character;
* `Span.shift` — the same span with its line inside a buffer;
* `Span.stretch` — its bytes alone.

The numbers are not bounded here.  In machine words they are kept, and added, as long as they fit.
-/

/-- A place in a text.  The zero span stands for no place. -/
structure Span where
  firstLine : Nat
  firstColumn : Nat
  lastLine : Nat
  lastColumn : Nat
  offset : Nat
  length : Nat
  deriving DecidableEq

/-- Some bytes of a text. -/
structure Stretch where
  offset : Nat
  length : Nat
  deriving DecidableEq

namespace Span

/-- No place. -/
def zero : Span := ⟨0, 0, 0, 0, 0, 0⟩

instance : Inhabited Span := ⟨zero⟩

/-- The empty span at a byte of a line. -/
def point (line : String) (offset : Nat) : Span :=
  let column := Text.columnAt line offset
  ⟨1, column, 1, column, offset, 0⟩

/-- The column of the last character of a line that starts before byte `stop`, for a stretch of whole
    characters from byte `start` on; otherwise the column at `start`. -/
def lastColumnOf (line : String) (start stop : Nat) : Nat :=
  match Text.charsWithin? line start, Text.charsWithin? line stop with
  | some _, some n => n
  | _, _ => Text.columnAt line start

/-- The span from byte `start` of a line up to byte `stop`, the empty one if `stop` is not behind
    `start`. -/
def cover (line : String) (start stop : Nat) : Span :=
  if stop ≤ start then point line start
  else ⟨1, Text.columnAt line start, 1, lastColumnOf line start stop, start, stop - start⟩

/-- Moves a span of a line to line `number` of a buffer, which starts at byte `offset`. -/
def shift (s : Span) (number offset : Nat) : Span :=
  { s with
    firstLine := s.firstLine + (number - 1)
    lastLine := s.lastLine + (number - 1)
    offset := s.offset + offset }

/-- The bytes of a span. -/
def stretch (s : Span) : Stretch :=
  ⟨s.offset, s.length⟩

/-- First and last line and column as text. -/
def text (s : Span) : String :=
  toString s.firstLine ++ ":" ++ toString s.firstColumn ++ "-" ++
    toString s.lastLine ++ ":" ++ toString s.lastColumn

end Span

end ExprForest

import ExprForest.Json.Numbers
import ExprForest.Span.Basic

namespace ExprForest.Span

/-!
# Spans as JSON

A span is an object of its six numbers.  Other members are passed over.
-/

open Json (Value Numbers Record numberField)

/-- A span as an object of its six numbers. -/
def toJson (s : Span) : Value :=
  .object [("first_line", Value.ofNat s.firstLine), ("first_column", Value.ofNat s.firstColumn),
    ("last_line", Value.ofNat s.lastLine), ("last_column", Value.ofNat s.lastColumn),
    ("offset", Value.ofNat s.offset), ("length", Value.ofNat s.length)]

/-- How a span is put together from its numbers. -/
def record : Record Numbers Span where
  expected := "struct Location"
  fields :=
    ["first_line", "first_column", "last_line", "last_column", "offset", "length"].map fun name =>
      numberField name id fun numbers _ => numbers
  start := []
  closed := false
  shortArrays := false
  complete n := do
    return {
      firstLine := ← n.take "first_line"
      firstColumn := ← n.take "first_column"
      lastLine := ← n.take "last_line"
      lastColumn := ← n.take "last_column"
      offset := ← n.take "offset"
      length := ← n.take "length" }

/-- The span that a JSON text describes. -/
def ofJson (text : String) : Except Json.Error Span :=
  record.read.readAll text

end ExprForest.Span

import ExprForest.Json.Numbers
import ExprForest.Status.Basic

namespace ExprForest

/-!
# Status records as JSON

A kind of outcome is written by its name, a status as an object of its kind and its four numbers.  Other
members are passed over.
-/

open Json (Reader Value Numbers Record numberField)

/-- A kind of outcome is written by its name. -/
def ErrorKind.toJson (kind : ErrorKind) : Value :=
  .string kind.word

/-- Reads a kind of outcome. -/
def ErrorKind.reader : Reader ErrorKind :=
  Reader.enumeration (all.map word) ofWord?

/-- The kind of outcome that a JSON text describes. -/
def ErrorKind.ofJson (text : String) : Except Json.Error ErrorKind :=
  ErrorKind.reader.readAll text

namespace Status

/-- A status as an object of its kind and its four numbers. -/
def toJson (s : Status) : Value :=
  .object [("kind", s.kind.toJson), ("first_line", Value.ofNat s.firstLine),
    ("first_column", Value.ofNat s.firstColumn), ("last_line", Value.ofNat s.lastLine),
    ("last_column", Value.ofNat s.lastColumn)]

/-- A status under construction. -/
structure Parts where
  kind : Option ErrorKind
  numbers : Numbers

/-- How a status is put together. -/
def record : Record Parts Status where
  expected := "struct ErrorRecord"
  fields :=
    { name := "kind"
      present := fun s => s.kind.isSome
      read := fun s => do return { s with kind := some (← ErrorKind.reader) } } ::
    ["first_line", "first_column", "last_line", "last_column"].map fun name =>
      numberField name Parts.numbers fun numbers s => { s with numbers }
  start := ⟨none, []⟩
  closed := false
  shortArrays := false
  complete s := do
    match s.kind with
    | none => throw (.missingField "kind")
    | some kind =>
      return {
        kind
        firstLine := ← s.numbers.take "first_line"
        firstColumn := ← s.numbers.take "first_column"
        lastLine := ← s.numbers.take "last_line"
        lastColumn := ← s.numbers.take "last_column" }

/-- The status that a JSON text describes. -/
def ofJson (text : String) : Except Json.Error Status :=
  record.read.readAll text

end Status

end ExprForest

import ExprForest.Forest.Basic
import ExprForest.Tree.Decode

namespace ExprForest.Forest

/-!
# Forests as JSON

A forest is the array of its trees.

* `toJson`, `toHost` — the array of the trees in one of their two forms;
* `ofJson` — the forest that a text describes.
-/

open Json (Value Reader)

/-- The array of the trees. -/
def toJson (f : Forest) : Value :=
  .array (f.trees.map Tree.toJson)

/-- The array of the trees in the form for hosts, or the first number that has none. -/
def toHost (f : Forest) : Except Tree.NotFinite Value :=
  Tree.toHost f.trees

/-- Reads a forest. -/
def reader : Reader Forest := do
  match ← Reader.peek with
  | none => Reader.unfinished .value
  | some ch =>
    if ch = '[' then
      let trees ← Reader.deeper Json.levels fun depth =>
        Reader.enclosed .square (Reader.items (Tree.reader depth) true)
      return ⟨trees⟩
    else Reader.refuse ch "a sequence"

/-- The forest that a JSON text describes. -/
def ofJson (text : String) : Except Json.Error Forest :=
  reader.readAll text

end ExprForest.Forest

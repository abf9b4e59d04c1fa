import ExprForest.Json.Read
import ExprForest.Operator.Basic

namespace ExprForest.Operator

/-!
# Operators as JSON

An operator is written by its name.
-/

open Json (Reader Value)

/-- An operator is written by its name. -/
def toJson (op : Operator) : Value :=
  .string op.word

/-- Reads an operator. -/
def reader : Reader Operator :=
  Reader.enumeration (all.map word) ofWord?

/-- The operator that a JSON text describes. -/
def ofJson (text : String) : Except Json.Error Operator :=
  reader.readAll text

end ExprForest.Operator

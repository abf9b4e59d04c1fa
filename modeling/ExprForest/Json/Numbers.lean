import ExprForest.Json.Record

namespace ExprForest.Json

/-!
# Records of numbers

* `Numbers` — the named numbers of a record under construction;
* `numberField` — a field that holds such a number.
-/

/-- A whole number as JSON. -/
def Value.ofNat (n : Nat) : Value :=
  .number (.unsigned n)

/-- The named numbers of a record under construction. -/
abbrev Numbers := List (String × Nat)

/-- A number field of a record that is put together beside something else. -/
def numberField {σ : Type} (name : String) (numbers : σ → Numbers) (set : Numbers → σ → σ) :
    Field σ where
  name
  present s := ((numbers s).lookup name).isSome
  read s := do
    let n ← Reader.natural
    return set ((name, n) :: numbers s) s

/-- The number of a given name. -/
def Numbers.take (numbers : Numbers) (name : String) : Except Mismatch Nat :=
  match numbers.lookup name with
  | some n => .ok n
  | none => .error (.missingField name)

end ExprForest.Json

import ExprForest.Json.Skip

namespace ExprForest.Json

/-!
# Records

A record is written as an object with its fields in any order, or as an array of its fields.

* `Field` — a field of a record under construction;
* `Record` — the fields, what happens to other members, and how a record is completed;
* `Record.read` — reads a record.

Assumed of the readers that a JSON library makes for a record: a field may not stand twice, a field that is
missing is told in the order of the fields, other members are passed over unless the record is closed, and the
array of a record must hold all of its fields unless those behind may be left out.
-/

/-- A field of a record that is being put together in `σ`. -/
structure Field (σ : Type) where
  name : String
  /-- Whether the field has its value. -/
  present : σ → Bool
  read : σ → Reader σ

/-- How a record of type `α` is put together in `σ`. -/
structure Record (σ α : Type) where
  /-- What was asked for, in messages. -/
  expected : String
  fields : List (Field σ)
  start : σ
  /-- Whether members of other names are refused. -/
  closed : Bool
  /-- Whether the last fields of an array may be left out. -/
  shortArrays : Bool
  /-- The record, or the first field that is missing. -/
  complete : σ → Except Mismatch α

namespace Record

variable {σ α : Type}

/-- The names of the fields. -/
def names (r : Record σ α) : List String :=
  r.fields.map Field.name

/-- Reads the member of a given name. -/
def member (r : Record σ α) (state : σ) (name : String) : Reader σ := do
  match r.fields.find? fun f => f.name == name with
  | some f =>
    if f.present state then Reader.unfit (.duplicateField name)
    else
      Reader.colon
      f.read state
  | none =>
    if r.closed then Reader.unfit (.unknownField name r.names)
    else
      Reader.colon
      Reader.skip
      return state

/-- Ends a record. -/
def finish (r : Record σ α) (state : σ) : Reader α :=
  match r.complete state with
  | .ok x => pure x
  | .error m => Reader.unfit m

/-- Reads fields from an array, in their order.  `index` fields stand before. -/
def inOrder (r : Record σ α) (index : Nat) (state : σ) : List (Field σ) → Reader σ
  | [] => pure state
  | f :: fs => do
    if ← Reader.another (index == 0) then
      inOrder r (index + 1) (← f.read state) fs
    else if r.shortArrays then return state
    else
      Reader.unfit
        (.invalidLength index (r.expected ++ " with " ++ toString r.fields.length ++ " elements"))

/-- Reads a record. -/
def read (r : Record σ α) : Reader α := do
  match ← Reader.peek with
  | none => Reader.unfinished .value
  | some ch =>
    if ch = '[' then
      Reader.drop
      Reader.enclosed .square do r.finish (← r.inOrder 0 r.start r.fields)
    else if ch = '\x7b' then
      Reader.drop
      Reader.enclosed .curly do r.finish (← Reader.members r.member r.start)
    else Reader.refuse ch r.expected

end Record

end ExprForest.Json

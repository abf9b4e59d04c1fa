namespace ExprForest.Json

/-!
# JSON values

* `Number` — whole numbers of 64 bits are kept apart from the other numbers;
* `Value` — a JSON value.  The members of an object stand in the order in which they are written, and
  a name may occur more than once.
-/

/-- A number of a JSON text. -/
inductive Number where
  /-- A whole number from `0` to `2^64 - 1`. -/
  | unsigned (n : Nat)
  /-- The whole number `-n`, from `-2^63` to `-1`. -/
  | negative (n : Nat)
  | float (x : Float)

/-- The double nearest to a number. -/
def Number.toFloat : Number → Float
  | unsigned n => Float.ofNat n
  | negative n => -Float.ofNat n
  | float x => x

/-- A JSON value. -/
inductive Value where
  | null
  | bool (b : Bool)
  | number (n : Number)
  | string (s : String)
  | array (items : List Value)
  | object (members : List (String × Value))

instance : Inhabited Value := ⟨.null⟩

end ExprForest.Json

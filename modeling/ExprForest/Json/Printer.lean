import ExprForest.Decimal.Format
import ExprForest.Json.Value
import ExprForest.Text.Quoted

namespace ExprForest.Json

/-!
# Writing JSON

Compact JSON without blanks.  A number that is not finite is written as `null`.

* `Value.compact` — the text of a value, by recursion;
* `Value.render` — the same text, written from a list of pending pieces so that a deep value needs no
  stack.

Assumed of the JSON library: members are written in the order in which they stand, strings as
`Text.jsonQuoted` has them, and doubles with the digits of `Decimal.Format.json`.
-/

/-- The text of a number. -/
def Number.text : Number → String
  | unsigned n => toString n
  | negative n => "-" ++ toString n
  | float x => if x.isFinite then Decimal.Format.json.text x else "null"

namespace Value

/-- A value without parts, as text. -/
def leafText : Value → String
  | null => "null"
  | bool true => "true"
  | bool false => "false"
  | number n => n.text
  | string s => Text.jsonQuoted s
  | array _ => "[]"
  | object _ => "\x7b\x7d"

/-- What is still to be written. -/
inductive Piece where
  | text (s : String)
  | value (v : Value)

/-- The items of an array with a comma before each. -/
def itemPieces (items : List Value) : List Piece :=
  items.flatMap fun v => [.text ",", .value v]

/-- The members of an object with a comma before each. -/
def memberPieces (members : List (String × Value)) : List Piece :=
  members.flatMap fun (name, v) => [.text ",", .text (Text.jsonQuoted name ++ ":"), .value v]

/-- A bound on the steps that writing a piece takes. -/
noncomputable def Piece.weight : Piece → Nat
  | text _ => 1
  | value v => 5 * sizeOf v

/-- The steps that a list of pieces takes. -/
noncomputable def totalWeight : List Piece → Nat
  | [] => 0
  | p :: ps => p.weight + totalWeight ps

@[simp] theorem totalWeight_append (ps qs : List Piece) :
    totalWeight (ps ++ qs) = totalWeight ps + totalWeight qs := by
  induction ps with
  | nil => simp [totalWeight]
  | cons p ps ih => simp [totalWeight, ih, Nat.add_assoc]

theorem totalWeight_itemPieces (items : List Value) :
    totalWeight (itemPieces items) ≤ 5 * sizeOf items := by
  induction items with
  | nil => simp [itemPieces, totalWeight]
  | cons v vs ih =>
    simp only [itemPieces, List.flatMap_cons, totalWeight_append] at ih ⊢
    simp only [totalWeight, Piece.weight, List.cons.sizeOf_spec]
    omega

theorem totalWeight_memberPieces (members : List (String × Value)) :
    totalWeight (memberPieces members) ≤ 5 * sizeOf members := by
  induction members with
  | nil => simp [memberPieces, totalWeight]
  | cons m ms ih =>
    obtain ⟨name, v⟩ := m
    simp only [memberPieces, List.flatMap_cons, totalWeight_append] at ih ⊢
    simp only [totalWeight, Piece.weight, List.cons.sizeOf_spec, Prod.mk.sizeOf_spec]
    omega

/-- Writes the pending pieces behind `out`. -/
def write (out : String) : List Piece → String
  | [] => out
  | .text s :: pending => write (out ++ s) pending
  | .value (array (v :: vs)) :: pending =>
    write (out ++ "[") (.value v :: (itemPieces vs ++ .text "]" :: pending))
  | .value (object ((name, v) :: ms)) :: pending =>
    write (out ++ "\x7b" ++ Text.jsonQuoted name ++ ":")
      (.value v :: (memberPieces ms ++ .text "\x7d" :: pending))
  | .value v :: pending => write (out ++ v.leafText) pending
termination_by pending => totalWeight pending
decreasing_by
  · simp only [totalWeight, Piece.weight]; omega
  · have := totalWeight_itemPieces vs
    simp only [totalWeight, Piece.weight, totalWeight_append, array.sizeOf_spec,
      List.cons.sizeOf_spec]
    omega
  · have := totalWeight_memberPieces ms
    simp only [totalWeight, Piece.weight, totalWeight_append, object.sizeOf_spec,
      List.cons.sizeOf_spec, Prod.mk.sizeOf_spec]
    omega
  · have : 0 < sizeOf v := by cases v <;> simp +arith
    simp only [totalWeight, Piece.weight]; omega

/-- The compact text of a value of any depth. -/
def render (v : Value) : String :=
  write "" [.value v]

mutual

/-- The compact text of a value. -/
def compact : Value → String
  | array (v :: vs) => "[" ++ compact v ++ compactItems vs ++ "]"
  | object ((name, v) :: ms) =>
    "\x7b" ++ Text.jsonQuoted name ++ ":" ++ compact v ++ compactMembers ms ++ "\x7d"
  | v => v.leafText

/-- The items of an array behind the first one. -/
def compactItems : List Value → String
  | [] => ""
  | v :: vs => "," ++ compact v ++ compactItems vs

/-- The members of an object behind the first one. -/
def compactMembers : List (String × Value) → String
  | [] => ""
  | (name, v) :: ms => "," ++ Text.jsonQuoted name ++ ":" ++ compact v ++ compactMembers ms

end

/-! ### The walk writes the compact text -/

/-- The text of a piece. -/
def Piece.full : Piece → String
  | text s => s
  | value v => v.compact

/-- The texts of pieces, one after another. -/
def joined : List Piece → String
  | [] => ""
  | p :: ps => p.full ++ joined ps

@[simp] theorem joined_append (ps qs : List Piece) :
    joined (ps ++ qs) = joined ps ++ joined qs := by
  induction ps with
  | nil => simp [joined]
  | cons p ps ih => simp [joined, ih, String.append_assoc]

theorem joined_itemPieces (items : List Value) :
    joined (itemPieces items) = compactItems items := by
  induction items with
  | nil => rfl
  | cons v vs ih =>
    simp only [itemPieces, List.flatMap_cons, joined_append] at ih ⊢
    rw [ih]; simp [joined, Piece.full, compactItems, String.append_assoc]

theorem joined_memberPieces (members : List (String × Value)) :
    joined (memberPieces members) = compactMembers members := by
  induction members with
  | nil => rfl
  | cons m ms ih =>
    obtain ⟨name, v⟩ := m
    simp only [memberPieces, List.flatMap_cons, joined_append] at ih ⊢
    rw [ih]; simp [joined, Piece.full, compactMembers, String.append_assoc]

/-- The walk writes the text of each piece in turn. -/
theorem write_eq (out : String) (pending : List Piece) : write out pending = out ++ joined pending := by
  fun_induction write out pending with
  | case1 => simp [joined]
  | case2 _ _ _ ih => rw [ih]; simp [joined, Piece.full, String.append_assoc]
  | case3 out v vs pending ih =>
    rw [ih]; simp [joined, joined_itemPieces, Piece.full, compact, String.append_assoc]
  | case4 out name v ms pending ih =>
    rw [ih]; simp [joined, joined_memberPieces, Piece.full, compact, String.append_assoc]
  | case5 out v pending harray hobject ih =>
    have hleaf : v.compact = v.leafText := by
      cases v with
      | array vs =>
        cases vs with
        | nil => simp [compact]
        | cons v vs => exact absurd rfl (harray v vs)
      | object ms =>
        cases ms with
        | nil => simp [compact]
        | cons m ms => exact absurd rfl (hobject m.1 m.2 ms)
      | _ => simp [compact]
    rw [ih]; simp [joined, Piece.full, hleaf, String.append_assoc]

/-- The walk writes the compact text of a value. -/
theorem render_eq_compact (v : Value) : v.render = v.compact := by
  simp [render, write_eq, joined, Piece.full]

end Value

end ExprForest.Json

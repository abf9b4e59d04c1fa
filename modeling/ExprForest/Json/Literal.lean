import ExprForest.Json.Cursor
import ExprForest.Text.Column

namespace ExprForest.Json.Literal

/-!
# Strings of a JSON text

* `hexFour` — four hexadecimal digits;
* `escape` — what a backslash introduces.  Code points beyond the basic plane are written as a pair
  of surrogates, and a surrogate without its partner is refused;
* `read` — a string, behind its opening quote.

Assumed of the JSON library: a control character must be escaped; any other character may be, by its code
point.
-/

/-- The value of a hexadecimal digit. -/
def hexValue? (ch : Char) : Option Nat :=
  if ch.isDigit then some (ch.toNat - '0'.toNat)
  else if 'a' ≤ ch ∧ ch ≤ 'f' then some (ch.toNat - 'a'.toNat + 10)
  else if 'A' ≤ ch ∧ ch ≤ 'F' then some (ch.toNat - 'A'.toNat + 10)
  else none

/-- The value of four hexadecimal digits at the head of a text. -/
def hexFour? : List Char → Option Nat
  | a :: b :: c :: d :: _ => do
    let a ← hexValue? a
    let b ← hexValue? b
    let c ← hexValue? c
    let d ← hexValue? d
    return 4096 * a + 256 * b + 16 * c + d
  | _ => none

/-- The four hexadecimal digits ahead, or why they are not there. -/
def hexFour (c : Cursor) : Except Error Nat :=
  if Text.byteLength (c.rest.take 4) < 4 then
    .error ⟨.unfinished .string, some (c.behind 4)⟩
  else
    match hexFour? c.rest with
    | some n => .ok n
    | none => .error ⟨.fault .invalidEscape, some (c.behind 4)⟩

/-- Whether a number is the first half of a surrogate pair. -/
def isLeading (n : Nat) : Bool :=
  0xd800 ≤ n && n ≤ 0xdbff

/-- Whether a number is the second half of a surrogate pair. -/
def isTrailing (n : Nat) : Bool :=
  0xdc00 ≤ n && n ≤ 0xdfff

/-- Reads the second half of a surrogate pair, with its own backslash. -/
def trailing (c : Cursor) : Except Error Nat :=
  match c.rest with
  | [] => .error ⟨.unfinished .string, some c.position⟩
  | ['\\'] => .error ⟨.unfinished .string, some (c.skip 1).position⟩
  | '\\' :: 'u' :: _ => do
    let n ← hexFour (c.skip 2)
    if isTrailing n then return n
    else throw ⟨.fault .loneSurrogate, some (c.skip 6).position⟩
  | '\\' :: _ => .error ⟨.fault .unexpectedEndOfHexEscape, some (c.skip 1).ahead⟩
  | _ => .error ⟨.fault .unexpectedEndOfHexEscape, some c.ahead⟩

/-- The character whose code point is written behind `\u`, and how many characters that takes. -/
def unicode (c : Cursor) : Except Error (Char × Nat) := do
  let n ← hexFour c
  if isTrailing n then throw ⟨.fault .loneSurrogate, some (c.skip 4).position⟩
  else if isLeading n then
    let m ← trailing (c.skip 4)
    return (Char.ofNat (0x10000 + 1024 * (n - 0xd800) + (m - 0xdc00)), 10)
  else return (Char.ofNat n, 4)

/-- The character that a letter behind a backslash stands for. -/
def escaped? : Char → Option Char
  | '"' => some '"'
  | '\\' => some '\\'
  | '/' => some '/'
  | 'b' => some '\x08'
  | 'f' => some '\x0c'
  | 'n' => some '\n'
  | 'r' => some '\r'
  | 't' => some '\t'
  | _ => none

/-- The character written behind a backslash, and how many characters that takes. -/
def escape (c : Cursor) : Except Error (Char × Nat) :=
  match c.rest with
  | [] => .error ⟨.unfinished .string, some c.position⟩
  | 'u' :: _ => (unicode (c.skip 1)).map fun (ch, n) => (ch, n + 1)
  | ch :: _ =>
    match escaped? ch with
    | some meant => .ok (meant, 1)
    | none => .error ⟨.fault .invalidEscape, some c.ahead⟩

/-- Going on behind the next character leaves less text. -/
theorem length_tail_lt {c : Cursor} (h : c.rest ≠ []) : c.tail.rest.length < c.rest.length := by
  unfold Cursor.tail
  split
  · exact absurd ‹_› h
  all_goals rename_i heq; simp [heq]

/-- Reads the rest of a string behind `out`, which is read already. -/
def readFrom (out : String) (c : Cursor) : Result String :=
  match h : c.rest with
  | [] => Reader.unfinished .string c
  | ch :: _ =>
    have less : c.tail.rest.length < c.rest.length := length_tail_lt (by simp [h])
    if ch = '"' then .done out c.tail
    else if ch = '\\' then
      match escape c.tail with
      | .error e => .stop e
      | .ok (meant, n) => readFrom (out.push meant) (c.tail.skip n)
    else if ch.toNat < 0x20 then Reader.fault .controlCharacter c
    else readFrom (out.push ch) c.tail
termination_by c.rest.length
decreasing_by
  · simp only [Cursor.skip, List.length_drop]; omega
  · exact less

/-- Reads a string, behind its opening quote. -/
def read : Reader String :=
  readFrom ""

/-! ### Strings that are passed over -/

/-- Passes over what a backslash introduces.  Surrogates need no partner. -/
def passEscape (c : Cursor) : Except Error Nat :=
  match c.rest with
  | [] => .error ⟨.unfinished .string, some c.position⟩
  | 'u' :: _ => (hexFour (c.skip 1)).map fun _ => 5
  | ch :: _ =>
    match escaped? ch with
    | some _ => .ok 1
    | none => .error ⟨.fault .invalidEscape, some c.ahead⟩

/-- Passes over a string, behind its opening quote.  A control character is noticed before it is
    read. -/
def pass (c : Cursor) : Result Unit :=
  match h : c.rest with
  | [] => Reader.unfinished .string c
  | ch :: _ =>
    have less : c.tail.rest.length < c.rest.length := length_tail_lt (by simp [h])
    if ch = '"' then .done () c.tail
    else if ch = '\\' then
      match passEscape c.tail with
      | .error e => .stop e
      | .ok n => pass (c.tail.skip n)
    else if ch.toNat < 0x20 then Reader.stopAt (.fault .controlCharacter) c.position
    else pass c.tail
termination_by c.rest.length
decreasing_by
  · simp only [Cursor.skip, List.length_drop]; omega
  · exact less

end ExprForest.Json.Literal

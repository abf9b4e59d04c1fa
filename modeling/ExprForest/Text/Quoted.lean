import ExprForest.Text.Shown

namespace ExprForest.Text

/-!
# Quoted text

Two ways of writing a text between double quotes.

* `jsonQuoted` — the JSON form: only the quote, the backslash and the control characters below
  U+0020 are escaped;
* `shownQuoted` — the form used inside messages: what cannot be seen is written by its code point.
-/

/-- The lower-case hexadecimal digits of a number. -/
def hexDigits (n : Nat) : List Char :=
  Nat.toDigits 16 n

/-- A character inside a JSON string. -/
def jsonEscaped (c : Char) : List Char :=
  match c with
  | '"' => ['\\', '"']
  | '\\' => ['\\', '\\']
  | '\n' => ['\\', 'n']
  | '\r' => ['\\', 'r']
  | '\t' => ['\\', 't']
  | '\x08' => ['\\', 'b']
  | '\x0c' => ['\\', 'f']
  | c =>
    if c.toNat < 0x20 then
      '\\' :: 'u' :: '0' :: '0' :: hexDigits (c.toNat / 16) ++ hexDigits (c.toNat % 16)
    else [c]

/-- A text as a JSON string. -/
def jsonQuoted (s : String) : String :=
  s.toList.foldl (fun out c => (jsonEscaped c).foldl String.push out) "\"" ++ "\""

/-- A character inside a text that is quoted in a message. -/
def shownEscaped (c : Char) : List Char :=
  match c with
  | '"' => ['\\', '"']
  | '\\' => ['\\', '\\']
  | '\n' => ['\\', 'n']
  | '\r' => ['\\', 'r']
  | '\t' => ['\\', 't']
  | '\x00' => ['\\', '0']
  | c => if isShown c then [c] else ['\\', 'u', '\x7b'] ++ hexDigits c.toNat ++ ['\x7d']

/-- A text as it is quoted in a message. -/
def shownQuoted (s : String) : String :=
  s.toList.foldl (fun out c => (shownEscaped c).foldl String.push out) "\"" ++ "\""

end ExprForest.Text

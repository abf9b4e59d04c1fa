import ExprForest.Token.Lexer
import Mathlib

namespace ExprForest

/-!
# The lexical rules

What the lexemes of a line are, said apart from the functions that read them.

* `Numeral.IsMantissa`, `Numeral.IsPower`, `IsNumeral` — the texts of numbers;
* `Lexeme.WellFormed` — the lexemes that the rules allow;
* `Lexeme.Longest` — the longest lexeme at the head of a text;
* `Token.Scans` — a text cut into longest lexemes with spaces around them.
-/

/-! ### Numbers and names -/

namespace Numeral

/-- A run of at least one decimal digit. -/
def IsDigits (cs : List Char) : Prop :=
  cs ≠ [] ∧ ∀ c ∈ cs, c.isDigit = true

/-- Digits with an optional point, at least one digit on one of its sides. -/
inductive IsMantissa : List Char → Prop where
  | whole {ds : List Char} :
      IsDigits ds →
      IsMantissa ds
  | pointed {ds fs : List Char} :
      IsDigits ds → (∀ c ∈ fs, c.isDigit = true) →
      IsMantissa (ds ++ '.' :: fs)
  | leading {fs : List Char} :
      IsDigits fs →
      IsMantissa ('.' :: fs)

/-- A power of ten: `e` or `E`, an optional sign, and digits. -/
inductive IsPower : List Char → Prop where
  | plain {e : Char} {ds : List Char} :
      e = 'e' ∨ e = 'E' → IsDigits ds →
      IsPower (e :: ds)
  | signed {e s : Char} {ds : List Char} :
      e = 'e' ∨ e = 'E' → s = '+' ∨ s = '-' → IsDigits ds →
      IsPower (e :: s :: ds)

end Numeral

/-- The text of a number: a mantissa with an optional power of ten. -/
inductive IsNumeral : List Char → Prop where
  | mantissa {m : List Char} :
      Numeral.IsMantissa m →
      IsNumeral m
  | scaled {m x : List Char} :
      Numeral.IsMantissa m → Numeral.IsPower x →
      IsNumeral (m ++ x)

/-- The text of a name: a letter or `_`, then letters, digits and `_`. -/
def IsName (cs : List Char) : Prop :=
  ∃ c rest, cs = c :: rest ∧ isNameStart c = true ∧ ∀ d ∈ rest, isNameRest d = true

/-! ### Lexemes and lines -/

namespace Lexeme

/-- Whether the rules allow a lexeme.  The signs are always allowed. -/
def WellFormed : Lexeme → Prop
  | number text => IsNumeral text
  | name text => IsName text
  | _ => True

/-- The longest lexeme that stands at the head of a text. -/
def Longest (l : Lexeme) (cs : List Char) : Prop :=
  l.WellFormed ∧ l.chars <+: cs ∧
    ∀ m : Lexeme, m.WellFormed → m.chars <+: cs → m.chars.length ≤ l.chars.length

end Lexeme

/-- How a text that starts at byte `start` of its line is cut into tokens: spaces are passed over, and
    where none stands the longest lexeme is a token. -/
inductive Token.Scans : Nat → List Char → List Token → Prop where
  /-- The end of the line. -/
  | done {start : Nat} :
      Scans start [] []
  /-- A space, a tab or a carriage return. -/
  | space {start : Nat} {c : Char} {cs : List Char} {ts : List Token} :
      isSpace c = true → Scans (start + c.utf8Size) cs ts →
      Scans start (c :: cs) ts
  /-- The longest lexeme, and what follows it. -/
  | token {start : Nat} {cs rest : List Char} {l : Lexeme} {ts : List Token} :
      l.Longest cs → cs = l.chars ++ rest → Scans (start + Text.byteLength l.chars) rest ts →
      Scans start cs (⟨l, start⟩ :: ts)

/-- The tokens of a line, in order: the line holds nothing but these tokens and spaces. -/
def Token.Lexes (line : String) (ts : List Token) : Prop :=
  Token.Scans 0 line.toList ts

end ExprForest

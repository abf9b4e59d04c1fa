import ExprForest.Decimal.Shortest

namespace ExprForest.Decimal

/-!
# Numbers as text

How the shortest digits of a double are laid out.

* `Format` — the choices of a notation: what happens to ties, which exponents are written out in
  positional form, what follows a whole number;
* `Format.plain` — numbers inside trees and messages: always positional, nothing after a whole number;
* `Format.json` — numbers in JSON: positional from `0.00001` up to sixteen digits before the point,
  with at least one digit after it;
* `Format.text` — writes a double.
-/

-- Powers are those of the core library, whatever else is imported.
attribute [local instance (high)] instPowNat

/-- The choices of a notation. -/
structure Format where
  /-- What to do with a value half way between two shortest decimals. -/
  tie : Tie
  /-- Which decimal exponents are written in positional form. -/
  positional : Int → Bool
  /-- What stands after a whole number in positional form. -/
  wholeEnd : String

namespace Format

/-- Always positional, with nothing after a whole number. -/
def plain : Format where
  tie := .awayFromZero
  positional _ := true
  wholeEnd := ""

/-- Positional for exponents from `-5` to `15`, a whole number with the decimal `.0`. -/
def json : Format where
  tie := .toEven
  positional e := decide (-5 ≤ e ∧ e < 16)
  wholeEnd := ".0"

/-- The decimal digits of a number. -/
def digitsOf (n : Nat) : List Char :=
  Nat.toDigits 10 n

/-- A run of zeros. -/
def zeros (n : Nat) : List Char :=
  List.replicate n '0'

/-- Digits with the point in its place: `point` digits stand before it, where a negative number
    counts the zeros between the point and the first digit. -/
def layPositional (f : Format) (digits : List Char) (point : Int) : List Char :=
  if (digits.length : Int) ≤ point then
    digits ++ zeros (point - digits.length).toNat ++ f.wholeEnd.toList
  else if 0 < point then
    digits.take point.toNat ++ '.' :: digits.drop point.toNat
  else
    '0' :: '.' :: zeros (-point).toNat ++ digits

/-- One digit, the other digits behind the point, and the exponent with its sign. -/
def layScientific (digits : List Char) (exponent : Int) : List Char :=
  let mantissa :=
    match digits with
    | [] => []
    | [d] => [d]
    | d :: ds => d :: '.' :: ds
  mantissa ++ 'e' :: (if exponent < 0 then '-' else '+') :: digitsOf exponent.natAbs

/-- The text of a positive decimal. -/
def magnitude (f : Format) (d : Digits) : List Char :=
  let digits := digitsOf d.mantissa
  let point := digits.length + d.exponent
  if f.positional (point - 1) then f.layPositional digits point
  else layScientific digits (point - 1)

/-- The text of a double. -/
def text (f : Format) (x : Float) : String :=
  let bits := x.toBits.toNat
  let sign := if bits / 2 ^ (63 : Nat) = 1 then "-" else ""
  if x.isNaN then "NaN"
  else if x.isInf then sign ++ "inf"
  else if bits % 2 ^ (63 : Nat) = 0 then sign ++ "0" ++ f.wholeEnd
  else sign ++ String.ofList (f.magnitude ((Binary.ofBits (bits % 2 ^ (63 : Nat))).shortest f.tie))

end Format

end ExprForest.Decimal

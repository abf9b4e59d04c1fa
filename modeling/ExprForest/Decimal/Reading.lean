import ExprForest.Decimal.Radix

namespace ExprForest.Decimal

/-!
# Reading decimals

* `Numeral.exponentOfDigits` — the value of the digits of a power of ten, which is cut off once it is
  beyond all use;
* `Numeral.read?` — digits with an optional point and an optional power of ten, as a pair `m`, `e`
  that stands for `m · 10^e`;
* `nearest` — the double nearest to `m · 10^e`, infinity when it is too large;
* `read?` — an optional sign, then a numeral, `inf`, `infinity` or `nan` in any case.
-/

/-- Splits a list of characters behind its leading decimal digits. -/
def splitDigits (cs : List Char) : List Char × List Char :=
  (cs.takeWhile Char.isDigit, cs.dropWhile Char.isDigit)

/-- Reads an optional sign; `true` stands for a minus. -/
def splitSign : List Char → Bool × List Char
  | '-' :: cs => (true, cs)
  | '+' :: cs => (false, cs)
  | cs => (false, cs)

namespace Numeral

/-- The least value of a power of ten behind which further digits are dropped. -/
def exponentBound : Nat := 0x10000

/-- The value of the digits of a power of ten.  Digits behind a value of at least `exponentBound` are
    dropped. -/
def exponentOfDigits (digits : List Char) : Nat :=
  digits.foldl (fun n c => if n < exponentBound then digitValue c + 10 * n else n) 0

/-- Reads an optional power of ten up to the end of the text. -/
def exponent? : List Char → Option Int
  | [] => some 0
  | c :: cs =>
    if c = 'e' ∨ c = 'E' then
      let (negative, digits) := splitSign cs
      if digits.isEmpty || !digits.all Char.isDigit then none
      else if negative then some (-(exponentOfDigits digits : Int))
      else some (exponentOfDigits digits)
    else none

/-- Reads digits with an optional point, at least one digit on one of its sides, and an optional
    power of ten, as `m · 10^e`. -/
def read? (cs : List Char) : Option (Nat × Int) :=
  let (whole, rest) := splitDigits cs
  let (decimals, rest) :=
    match rest with
    | '.' :: behind => splitDigits behind
    | _ => ([], rest)
  if whole.isEmpty && decimals.isEmpty then none
  else (exponent? rest).map fun e => (natOfDigits (whole ++ decimals), e - decimals.length)

end Numeral

/-- The infinite double above zero. -/
def infinity : Float :=
  1 / 0

/-- The double nearest to `m · 10^e`.  Powers of two below and above `m · 10^e` show when it is far out of
    the range of doubles, and then it is not multiplied out. -/
def nearest (m : Nat) (e : Int) : Float :=
  let size : Int := m.log2
  if m = 0 then 0
  else if 1200 < size + (if e < 0 then 10 * e / 3 else 3 * e) then infinity
  else if size + 3 * e < -1200 then 0
  else if e < 0 then Float.ofScientific m true e.natAbs
  else Float.ofScientific m false e.natAbs

/-- Reads the text of a number, to the nearest double. -/
def read? (cs : List Char) : Option Float :=
  let (negative, body) := splitSign cs
  let magnitude : Option Float :=
    match String.ofList (body.map Char.toLower) with
    | "inf" => some infinity
    | "infinity" => some infinity
    | "nan" => some (0 / 0)
    | _ => (Numeral.read? body).map fun (m, e) => nearest m e
  magnitude.map fun x => if negative then -x else x

end ExprForest.Decimal

import ExprForest.Json.Cursor

namespace ExprForest.Json.Numeral

/-!
# Numbers of a JSON text

A whole number that fits 64 bits is kept as it is.  Any other number becomes a double in two steps:
as many leading digits as fit 64 bits make a significand, which is then multiplied or divided by a
power of ten.  Each step rounds.

* `keep` — the leading digits that stay below a bound;
* `scale?` — the significand times a power of ten;
* `read` — a number, behind its minus sign if it has one.

Assumed of the JSON library: it rounds in these two steps, and not once to the nearest double; an exponent is
given up beyond 31 bits; a number whose double would not be finite is refused.
-/

-- Powers are those of the core library, whatever else is imported.
attribute [local instance (high)] instPowNat

/-- The value of a digit. -/
def digitValue (d : Char) : Nat :=
  d.toNat - 48

/-- Appends digits to a number as long as it stays below `bound`.  Gives the number and the digits
    left over. -/
def keep (bound n : Nat) : List Char → Nat × List Char
  | [] => (n, [])
  | d :: ds =>
    let next := 10 * n + digitValue d
    if next < bound then keep bound next ds else (n, d :: ds)

/-- A power of ten as a double. -/
def powerOfTen (n : Nat) : Float :=
  Float.ofScientific 1 false n

/-- The greatest exponent of a power of ten that is a double. -/
def greatestPower : Nat := 308

/-- Divides by `10^n`, in steps that a double can hold, until nothing is left. -/
def shrink (x : Float) (n : Nat) : Float :=
  if n ≤ greatestPower then x / powerOfTen n
  else if x == 0 then x
  else shrink (x / powerOfTen greatestPower) (n - greatestPower)
termination_by n
decreasing_by simp only [greatestPower] at *; omega

/-- Multiplies by `10^n`, unless that leaves the range of doubles. -/
def grow? (x : Float) (n : Nat) : Option Float :=
  if n ≤ greatestPower then
    let y := x * powerOfTen n
    if y.isInf then none else some y
  else if x == 0 then some x
  else none

/-- The double for `significand · 10^exponent`, if it is in range. -/
def scale? (significand : Nat) (exponent : Int) : Option Float :=
  let x := Float.ofNat significand
  if 0 ≤ exponent then grow? x exponent.natAbs else some (shrink x exponent.natAbs)

/-- A double with its sign. -/
def signed (negative : Bool) (x : Float) : Number :=
  .float (if negative then -x else x)

/-- Ends a number that is no whole number of 64 bits. -/
def finish (negative : Bool) (significand : Nat) (exponent : Int) : Reader Number :=
  fun c =>
    match scale? significand exponent with
    | some x => .done (signed negative x) c
    | none => Reader.stopAt (.fault .numberOutOfRange) c.position

/-- Reads the power of ten behind `e`.  An exponent beyond 32 bits is refused as soon as it is, unless
    it leaves zero. -/
def power (negative : Bool) (significand : Nat) (exponent : Int) : Reader Number :=
  fun c =>
    let (down, c) :=
      match c.rest with
      | '+' :: _ => (false, c.skip 1)
      | '-' :: _ => (true, c.skip 1)
      | _ => (false, c)
    match c.rest with
    | [] => Reader.unfinished .value c
    | d :: _ =>
      if !d.isDigit then Reader.fault .invalidNumber c
      else
        let (digits, behind) := c.digits
        let (n, left) := keep (2 ^ (31 : Nat)) 0 digits
        match left with
        | [] => finish negative significand (if down then exponent - n else exponent + n) behind
        | _ :: more =>
          if significand != 0 && !down then
            Reader.stopAt (.fault .numberOutOfRange) (c.skip (digits.length - more.length)).position
          else .done (signed negative 0) behind

/-- Reads what follows the digits of a number and its point: a power of ten, or nothing. -/
def powerOrEnd (negative : Bool) (significand : Nat) (exponent : Int) : Reader Number :=
  fun c =>
    match c.rest with
    | 'e' :: _ | 'E' :: _ => power negative significand exponent (c.skip 1)
    | _ => finish negative significand exponent c

/-- Reads the digits behind the point, of which there must be one.  Digits for which the significand
    has no room are left out. -/
def decimals (negative : Bool) (significand : Nat) (exponent : Int) : Reader Number :=
  fun c =>
    let (digits, behind) := c.digits
    match digits, behind.rest with
    | [], [] => Reader.unfinished .value behind
    | [], _ => Reader.fault .invalidNumber behind
    | _, _ =>
      let (significand, left) := keep (2 ^ (64 : Nat)) significand digits
      powerOrEnd negative significand (exponent - (digits.length - left.length)) behind

/-- A whole number that fits 64 bits.  A negative one below `-2^63`, and minus zero, are doubles. -/
def whole (negative : Bool) (n : Nat) : Number :=
  if !negative then .unsigned n
  else if 0 < n ∧ n ≤ 2 ^ (63 : Nat) then .negative n
  else signed true (Float.ofNat n)

/-- Reads a number, behind its minus sign if it is `negative`. -/
def read (negative : Bool) : Reader Number :=
  fun c =>
    match c.rest with
    | [] => Reader.unfinished .value c
    | first :: second =>
      if !first.isDigit then Reader.fault .invalidNumber c
      else if first = '0' ∧ (second.head?.any Char.isDigit) then
        Reader.fault .invalidNumber (c.skip 1)
      else
        let (digits, behind) := c.digits
        let (significand, left) := keep (2 ^ (64 : Nat)) 0 digits
        match behind.rest, left with
        | '.' :: _, _ => decimals negative significand left.length (behind.skip 1)
        | 'e' :: _, _ | 'E' :: _, _ => power negative significand left.length (behind.skip 1)
        | _, [] => .done (whole negative significand) behind
        | _, _ => finish negative significand left.length behind

/-! ### Numbers that are passed over -/

/-- Passes over at least one digit. -/
def passDigits : Reader Unit :=
  fun c =>
    match c.digits with
    | ([], c) => Reader.fault .invalidNumber c
    | (_, c) => .done () c

/-- Passes over the power of ten behind `e`. -/
def passPower : Reader Unit :=
  fun c =>
    match c.rest with
    | '+' :: _ | '-' :: _ => passDigits (c.skip 1)
    | _ => passDigits c

/-- Passes over a power of ten, or nothing. -/
def passPowerOrEnd : Reader Unit :=
  fun c =>
    match c.rest with
    | 'e' :: _ | 'E' :: _ => passPower (c.skip 1)
    | _ => .done () c

/-- Passes over what follows the digits before the point. -/
def passDecimals : Reader Unit :=
  fun c =>
    match c.rest with
    | '.' :: _ => (do passDigits; passPowerOrEnd : Reader Unit) (c.skip 1)
    | _ => passPowerOrEnd c

/-- Passes over a number, behind its minus sign.  No number is out of range. -/
def pass : Reader Unit :=
  fun c =>
    match c.rest with
    | '0' :: second :: _ =>
      if second.isDigit then Reader.fault .invalidNumber (c.skip 1) else passDecimals (c.skip 1)
    | _ => (do passDigits; passDecimals : Reader Unit) c

end ExprForest.Json.Numeral

namespace ExprForest.Decimal

/-!
# The fewest digits that read back

A positive finite double is `m · 2^q`.  The reals that round to it form an interval, whose ends
belong to it exactly if `m` is even.  Among the decimals in the interval this module takes one with
the fewest digits, and of those the nearest to the value.

* `Binary` — the pair `m`, `q`, and whether the gap below is only half the gap above;
* `Binary.ofBits` — the pair encoded by the bits of a double;
* `Digits` — a decimal, `mantissa · 10^exponent`;
* `Binary.candidate?` — the nearest neighbour on one decimal grid, if it lies in the interval;
* `Binary.shortest` — the first grid, from the coarsest on, that has a candidate.  On the finest grid
  lies the value itself.
-/

-- Powers are those of the core library, whatever else is imported.
attribute [local instance (high)] instPowNat

/-- The number `mantissa · 10^exponent`. -/
structure Digits where
  mantissa : Nat
  exponent : Int
  deriving DecidableEq

/-- A positive double, `m · 2^q`.  It is `narrow` if the next double below is only half as far away
    as the next one above. -/
structure Binary where
  m : Nat
  q : Int
  narrow : Bool
  deriving DecidableEq

/-- What to do with a value half way between two decimals of equally few digits. -/
inductive Tie where
  | awayFromZero
  | toEven
  deriving DecidableEq

namespace Binary

/-- The magnitude that the 64 bits of a finite double encode, the sign left aside. -/
def ofBits (bits : Nat) : Binary :=
  let fraction := bits % 2 ^ (52 : Nat)
  let exponent : Nat := bits / 2 ^ (52 : Nat) % 2 ^ (11 : Nat)
  if exponent = 0 then ⟨fraction, -1074, false⟩
  else ⟨fraction + 2 ^ (52 : Nat), Int.ofNat exponent - 1075, fraction == 0 && 1 < exponent⟩

/-- The lower end of the interval, in quarters of `2^q`. -/
def low (x : Binary) : Nat :=
  if x.narrow then 4 * x.m - 1 else 4 * x.m - 2

/-- The upper end of the interval, in quarters of `2^q`. -/
def high (x : Binary) : Nat :=
  4 * x.m + 2

/-- A quarter of `2^q` in units of `10^k`, as a fraction. -/
def quarter (x : Binary) (k : Int) : Nat × Nat :=
  (2 ^ (x.q - 2).toNat * 10 ^ (-k).toNat, 2 ^ (2 - x.q).toNat * 10 ^ k.toNat)

/-- Whether `n · 10^k` rounds to the value. -/
def contains (x : Binary) (k : Int) (n : Nat) : Bool :=
  let (num, den) := x.quarter k
  if x.m % 2 = 0 then x.low * num ≤ n * den && n * den ≤ x.high * num
  else x.low * num < n * den && n * den < x.high * num

/-- Whether a value `rest / den` above the grid point `below` is rounded down to it. -/
def roundsDown (tie : Tie) (below rest den : Nat) : Bool :=
  match tie with
  | .awayFromZero => 2 * rest < den
  | .toEven => 2 * rest < den || (2 * rest == den && below % 2 == 0)

/-- The nearest neighbour of the value on the grid of multiples of `10^k`, or else the other one, if
    it rounds to the value. -/
def candidate? (tie : Tie) (x : Binary) (k : Int) : Option Digits :=
  let (num, den) := x.quarter k
  let value := 4 * x.m * num
  let below := value / den
  let nearestFirst :=
    if roundsDown tie below (value % den) den then [below, below + 1] else [below + 1, below]
  (nearestFirst.find? (x.contains k)).map fun n => ⟨n, k⟩

/-- The finest grid that is needed: the value lies on it. -/
def finest (x : Binary) : Int :=
  min x.q 0

/-- The value itself on its finest grid. -/
def exact (x : Binary) : Digits :=
  ⟨x.m * 2 ^ x.q.toNat * 5 ^ (-x.q).toNat, x.finest⟩

/-- A power of ten above the value: `log₁₀ 2` is a little less than `0.30103`. -/
def coarsest (x : Binary) : Int :=
  ((x.m.log2 : Int) + 1 + x.q) * 30103 / 100000 + 1

/-- Searches the grids `10^(finest + n)`, …, `10^finest` in this order. -/
def search (tie : Tie) (x : Binary) : Nat → Digits
  | 0 => x.exact
  | n + 1 =>
    match x.candidate? tie (x.finest + (n + 1)) with
    | some d => d
    | none => search tie x n

/-- The decimal with the fewest digits that rounds to the value, the nearest one of them. -/
def shortest (tie : Tie) (x : Binary) : Digits :=
  x.search tie (x.coarsest - x.finest).toNat

end Binary

end ExprForest.Decimal

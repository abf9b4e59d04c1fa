namespace ExprForest.Decimal

/-!
# The value of a run of digits

* `positional` — the value of digits to a base, the lowest digit first;
* `joined` — the same value, found by joining neighbours into digits to the square of the base until
  one is left, which is cheap for long runs;
* `natOfDigits` — the value of decimal digits as they are written.
-/

-- Powers are those of the core library, whatever else is imported.
attribute [local instance (high)] instPowNat

/-- The value of digits to a base, the lowest digit first. -/
def positional (base : Nat) (digits : List Nat) : Nat :=
  digits.foldr (fun d rest => d + base * rest) 0

@[simp] theorem positional_nil (base : Nat) : positional base [] = 0 := rfl

@[simp] theorem positional_cons (base d : Nat) (ds : List Nat) :
    positional base (d :: ds) = d + base * positional base ds := rfl

/-- The digits behind some others count with a power of the base. -/
theorem positional_append (base : Nat) (low high : List Nat) :
    positional base (low ++ high) = positional base low + base ^ low.length * positional base high := by
  induction low with
  | nil => simp
  | cons d ds ih =>
    simp only [List.cons_append, positional_cons, ih, List.length_cons, Nat.pow_succ]
    rw [Nat.mul_add, Nat.add_assoc, ← Nat.mul_assoc, Nat.mul_comm base (base ^ ds.length)]

/-- Joins neighbouring digits to a base into digits to its square, behind those already joined, which are
    listed last first. -/
def joinPairs (base : Nat) (done : List Nat) : List Nat → List Nat
  | low :: high :: ds => joinPairs base ((low + base * high) :: done) ds
  | [d] => (d :: done).reverse
  | [] => done.reverse

/-- Joining halves the number of digits. -/
theorem length_joinPairs (base : Nat) (done ds : List Nat) :
    (joinPairs base done ds).length = done.length + (ds.length + 1) / 2 := by
  fun_induction joinPairs base done ds with
  | case1 done low high ds ih => simp only [List.length_cons] at ih ⊢; omega
  | case2 => simp
  | case3 => simp

/-- Joining keeps the value. -/
theorem positional_joinPairs (base : Nat) (done ds : List Nat) :
    positional (base * base) (joinPairs base done ds) =
      positional (base * base) done.reverse + (base * base) ^ done.length * positional base ds := by
  fun_induction joinPairs base done ds with
  | case1 done low high ds ih =>
    rw [ih, List.reverse_cons, positional_append]
    simp only [List.length_reverse, List.length_cons, positional_cons, positional_nil, Nat.pow_succ,
      Nat.mul_add, Nat.mul_zero, Nat.add_zero, Nat.mul_assoc, Nat.add_assoc]
  | case2 done d => simp [positional_append]
  | case3 done => simp

/-- The value of digits to a base, the lowest digit first. -/
def joined (base : Nat) : List Nat → Nat
  | [] => 0
  | [d] => d
  | low :: high :: ds => joined (base * base) (joinPairs base [] (low :: high :: ds))
termination_by ds => ds.length
decreasing_by
  rw [length_joinPairs]; simp only [List.length_nil, List.length_cons]; omega

/-- Joining the digits finds their value. -/
theorem joined_eq_positional (base : Nat) (ds : List Nat) : joined base ds = positional base ds := by
  fun_induction joined base ds with
  | case1 => rfl
  | case2 => simp
  | case3 base low high ds ih => rw [ih, positional_joinPairs]; simp

/-- The value of a decimal digit. -/
def digitValue (c : Char) : Nat :=
  c.toNat - '0'.toNat

/-- The value of decimal digits, the highest digit first. -/
def natOfDigits (digits : List Char) : Nat :=
  joined 10 (digits.reverse.map digitValue)

/-- The value of decimal digits is found by appending them one by one. -/
theorem natOfDigits_eq_foldl (digits : List Char) :
    natOfDigits digits = digits.foldl (fun n c => digitValue c + 10 * n) 0 := by
  rw [natOfDigits, joined_eq_positional, positional, List.foldr_map, List.foldr_reverse]

end ExprForest.Decimal

import ExprForest.Text.Column

namespace ExprForest

/-!
# Lines of a buffer

* `Line` — a line with its number and the byte of the buffer at which it starts;
* `Line.split` — the lines of a buffer.  A line feed ends a line and starts no further one at the end
  of the buffer; one carriage return at the end of a line does not belong to its text.
-/

/-- A line of a buffer, without its end. -/
structure Line where
  /-- The first line has number one. -/
  number : Nat
  /-- The byte of the buffer at which the line starts. -/
  offset : Nat
  text : String
  deriving DecidableEq

namespace Line

/-- A line without one carriage return at its end. -/
def dropReturn (line : List Char) : List Char :=
  if line.getLast? = some '\r' then line.dropLast else line

/-- The lines of the rest of a buffer, which starts at byte `offset` with line `number`, behind the
    lines already split off, which are listed last first. -/
def splitFrom (done : List Line) (number offset : Nat) (rest : List Char) : List Line :=
  match rest with
  | [] => done.reverse
  | c :: cs =>
    let body := (c :: cs).takeWhile (· ≠ '\n')
    let line : Line := ⟨number, offset, String.ofList (dropReturn body)⟩
    match h : (c :: cs).drop body.length with
    | [] => (line :: done).reverse
    | _ :: behind =>
      have : behind.length < cs.length + 1 := by
        have := congrArg List.length h
        simp only [List.length_drop, List.length_cons] at this
        omega
      splitFrom (line :: done) (number + 1) (offset + Text.byteLength body + 1) behind
termination_by rest.length

/-- The lines of a buffer. -/
def split (buffer : String) : List Line :=
  splitFrom [] 1 0 buffer.toList

end Line

end ExprForest

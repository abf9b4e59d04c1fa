import ExprForest.Span.Basic

namespace ExprForest

/-!
# The flat status of a parse

For hosts that cannot take a rich error value over: a kind, and lines and columns.

* `ErrorKind` — the classes of outcome, success among them;
* `Status` — a kind with a place; `Status.cleared` is the status of a success.
-/

/-- The classes of outcome of a parse. -/
inductive ErrorKind where
  /-- The cleared state, never the outcome of a failed parse. -/
  | noError
  | syntaxError
  | invalidToken
  | outOfMemory
  | unknownError
  | invalidArgument
  deriving DecidableEq, Inhabited

namespace ErrorKind

/-- Every kind. -/
def all : List ErrorKind :=
  [noError, syntaxError, invalidToken, outOfMemory, unknownError, invalidArgument]

/-- The name of a kind. -/
def word : ErrorKind → String
  | noError => "no-error"
  | syntaxError => "syntax-error"
  | invalidToken => "invalid-token"
  | outOfMemory => "out-of-memory"
  | unknownError => "unknown-error"
  | invalidArgument => "invalid-argument"

/-- The kind with a given name, if there is one. -/
def ofWord? (name : String) : Option ErrorKind :=
  all.find? fun kind => kind.word == name

/-- A name leads back to its kind. -/
@[simp] theorem ofWord?_word (kind : ErrorKind) : ofWord? kind.word = some kind := by
  cases kind <;> decide

/-- Whether a kind stands for a failure. -/
def isError (kind : ErrorKind) : Bool :=
  kind != noError

end ErrorKind

/-- A kind of outcome with the place it points to.  Kinds without a place keep zeros. -/
structure Status where
  kind : ErrorKind
  firstLine : Nat
  firstColumn : Nat
  lastLine : Nat
  lastColumn : Nat
  deriving DecidableEq

namespace Status

/-- The status of a success. -/
def cleared : Status := ⟨.noError, 0, 0, 0, 0⟩

instance : Inhabited Status := ⟨cleared⟩

/-- Whether nothing is reported. -/
def isClear (s : Status) : Bool :=
  s == cleared

/-- A status of a kind at a place. -/
def located (kind : ErrorKind) (span : Span) : Status :=
  ⟨kind, span.firstLine, span.firstColumn, span.lastLine, span.lastColumn⟩

/-- The status as text: the kind, and the place for the two kinds that have one. -/
def text (s : Status) : String :=
  match s.kind with
  | .syntaxError | .invalidToken =>
    s.kind.word ++ " at " ++ toString s.firstLine ++ ":" ++ toString s.firstColumn ++ "-" ++
      toString s.lastLine ++ ":" ++ toString s.lastColumn
  | kind => kind.word

end Status

end ExprForest

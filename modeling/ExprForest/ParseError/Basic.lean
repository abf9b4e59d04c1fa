import ExprForest.Status.Basic

namespace ExprForest

/-!
# Parse errors

* `Source` — the text an error points into, and what that text is;
* `ParseError` — the five ways in which a parse fails;
* `ParseError.syntaxError`, `ParseError.invalidToken` — errors whose label is under the bytes of their span;
* `ParseError.message` — the wording;
* `ParseError.inBuffer` — an error of one statement in the coordinates of the buffer it came from.
-/

/-- The text an error points into. -/
structure Source where
  /-- Whether the text is a whole buffer or one statement of it. -/
  whole : Bool
  text : String
  deriving DecidableEq

/-- What a source is called in a report. -/
def Source.name (s : Source) : String :=
  if s.whole then "input" else "statement"

/-- A failed parse. -/
inductive ParseError where
  /-- A syntax error with the span at which it stands, and the bytes under which its label is drawn. -/
  | syntaxFailure (message : String) (span : Span) (source : Source) (label : Stretch)
  /-- An invalid token with its span, and the bytes under which its label is drawn. -/
  | tokenFailure (lexeme : String) (span : Span) (source : Source) (label : Stretch)
  | outOfMemory (activity : String)
  | unknown (message : String)
  | invalidArgument (message : String)
  deriving DecidableEq

namespace ParseError

/-- A syntax error with its label under the bytes of its span. -/
abbrev syntaxError (message : String) (span : Span) (source : Source) : ParseError :=
  syntaxFailure message span source span.stretch

/-- An invalid token with its label under the bytes of its span. -/
abbrev invalidToken (lexeme : String) (span : Span) (source : Source) : ParseError :=
  tokenFailure lexeme span source span.stretch

/-- The wording of an error. -/
def message : ParseError → String
  | syntaxFailure message .. => "syntax error: " ++ message
  | tokenFailure lexeme .. => "invalid token '" ++ lexeme ++ "'"
  | outOfMemory activity => "out of memory while " ++ activity
  | unknown message => "parser failure: " ++ message
  | invalidArgument message => "invalid argument: " ++ message

/-- The class of an error. -/
def kind : ParseError → ErrorKind
  | syntaxFailure .. => .syntaxError
  | tokenFailure .. => .invalidToken
  | outOfMemory _ => .outOfMemory
  | unknown _ => .unknownError
  | invalidArgument _ => .invalidArgument

/-- The place of an error and the text it points into, for the kinds that have one. -/
def place? : ParseError → Option (Span × Source)
  | syntaxFailure _ span source _ => some (span, source)
  | tokenFailure _ span source _ => some (span, source)
  | _ => none

/-- The place of an error, for the kinds that have one. -/
def span? (e : ParseError) : Option Span :=
  e.place?.map Prod.fst

/-- The text an error points into, for the kinds that have one. -/
def source? (e : ParseError) : Option Source :=
  e.place?.map Prod.snd

/-- The bytes under which the label of an error is drawn, for the kinds that have one. -/
def stretch? : ParseError → Option Stretch
  | syntaxFailure _ _ _ label => some label
  | tokenFailure _ _ _ label => some label
  | _ => none

/-- The flat status of an error. -/
def status (e : ParseError) : Status :=
  .located e.kind (e.span?.getD .zero)

/-- The stable identifier of an error's class. -/
def code : ParseError → String
  | syntaxFailure .. => "function_parser::parse::syntax"
  | tokenFailure .. => "function_parser::parse::invalid_token"
  | outOfMemory _ => "function_parser::parse::out_of_memory"
  | unknown _ => "function_parser::parse::unknown"
  | invalidArgument _ => "function_parser::invalid_argument"

/-- Advice for the two kinds that an author of expressions can mend. -/
def help? : ParseError → Option String
  | syntaxFailure .. => some "each line must hold exactly one complete expression"
  | tokenFailure .. =>
    some "expressions are built from numbers, identifiers, parentheses, commas and + - * / ^ ="
  | _ => none

/-- What is written under the place of an error. -/
def label? : ParseError → Option String
  | syntaxFailure .. => some "parsing stopped here"
  | tokenFailure .. => some "not a token"
  | _ => none

/-- Moves an error of one statement to line `number` of `buffer`, which starts at byte `offset`.  The label
    is made from the moved span, whatever it was.  An error without a place stays as it is. -/
def inBuffer (number offset : Nat) (buffer : String) : ParseError → ParseError
  | syntaxFailure message span _ _ => syntaxError message (span.shift number offset) ⟨true, buffer⟩
  | tokenFailure lexeme span _ _ => invalidToken lexeme (span.shift number offset) ⟨true, buffer⟩
  | e => e

end ParseError

/-- The status of the outcome of a parse. -/
def Status.ofResult {α : Type} : Except ParseError α → Status
  | .ok _ => .cleared
  | .error e => e.status

end ExprForest

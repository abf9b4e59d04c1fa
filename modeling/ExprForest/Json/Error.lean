import ExprForest.Decimal.Format
import ExprForest.Json.Value
import ExprForest.Text.Quoted

namespace ExprForest.Json

/-!
# Why a JSON text is refused

Three categories: the text breaks the rules of JSON, it ends too early, or it is JSON but not of the
content that was asked for.

* `Fault`, `Unfinished`, `Mismatch` — the causes of each category;
* `Error` — a cause with the position at which it was noticed, if that is known;
* `Error.message` — the wording, which is assumed of the JSON library as it stands.
-/

/-- A place in a JSON text: the line from one, and the bytes read on that line. -/
structure Position where
  line : Nat
  column : Nat
  deriving DecidableEq

/-- Ways in which a text breaks the rules of JSON. -/
inductive Fault where
  | expectedValue
  | expectedIdent
  | invalidNumber
  | numberOutOfRange
  | keyMustBeString
  | expectedColon
  | expectedCommaOrBrace
  | expectedCommaOrBracket
  | trailingComma
  | trailingCharacters
  | invalidEscape
  | loneSurrogate
  | unexpectedEndOfHexEscape
  | controlCharacter
  | recursionLimit
  deriving DecidableEq

/-- What was still open when a text ended. -/
inductive Unfinished where
  | value | object | list | string
  deriving DecidableEq

/-- What was found in the place of something else. -/
inductive Found where
  | null
  | bool (b : Bool)
  | number (n : Number)
  | string (s : String)
  | sequence
  | map

/-- Ways in which a JSON text is not of the content that was asked for. -/
inductive Mismatch where
  | unknownField (name : String) (expected : List String)
  | duplicateField (name : String)
  | missingField (name : String)
  | unknownVariant (name : String) (expected : List String)
  | invalidType (found : Found) (expected : String)
  | invalidValue (found : Found) (expected : String)
  | invalidLength (length : Nat) (expected : String)

/-- Why a text is refused. -/
inductive Cause where
  | fault (f : Fault)
  | unfinished (u : Unfinished)
  | mismatch (m : Mismatch)

/-- A refused text: the cause, and the position at which it was noticed. -/
structure Error where
  cause : Cause
  position : Option Position

/-! ### Wording -/

/-- The wording of a broken rule. -/
def Fault.message : Fault → String
  | expectedValue => "expected value"
  | expectedIdent => "expected ident"
  | invalidNumber => "invalid number"
  | numberOutOfRange => "number out of range"
  | keyMustBeString => "key must be a string"
  | expectedColon => "expected `:`"
  | expectedCommaOrBrace => "expected `,` or `\x7d`"
  | expectedCommaOrBracket => "expected `,` or `]`"
  | trailingComma => "trailing comma"
  | trailingCharacters => "trailing characters"
  | invalidEscape => "invalid escape"
  | loneSurrogate => "lone leading surrogate in hex escape"
  | unexpectedEndOfHexEscape => "unexpected end of hex escape"
  | controlCharacter => "control character (\\u0000-\\u001F) found while parsing a string"
  | recursionLimit => "recursion limit exceeded"

/-- The wording of an early end. -/
def Unfinished.message : Unfinished → String
  | value => "EOF while parsing a value"
  | object => "EOF while parsing an object"
  | list => "EOF while parsing a list"
  | string => "EOF while parsing a string"

/-- A found value in words. -/
def Found.text : Found → String
  | null => "null"
  | bool b => "boolean `" ++ (if b then "true" else "false") ++ "`"
  | number (.unsigned n) => "integer `" ++ toString n ++ "`"
  | number (.negative n) => "integer `-" ++ toString n ++ "`"
  | number (.float x) => "floating point `" ++ Decimal.Format.json.text x ++ "`"
  | string s => "string " ++ Text.shownQuoted s
  | sequence => "sequence"
  | map => "map"

/-- A list of names to choose from. -/
def alternatives (names : List String) : String :=
  let quoted := names.map fun n => "`" ++ n ++ "`"
  match quoted with
  | [] => "nothing"
  | [a] => a
  | [a, b] => a ++ " or " ++ b
  | _ => "one of " ++ String.intercalate ", " quoted

/-- The wording of unfit content. -/
def Mismatch.message : Mismatch → String
  | unknownField name expected => "unknown field `" ++ name ++ "`, expected " ++ alternatives expected
  | duplicateField name => "duplicate field `" ++ name ++ "`"
  | missingField name => "missing field `" ++ name ++ "`"
  | unknownVariant name expected =>
    "unknown variant `" ++ name ++ "`, expected " ++ alternatives expected
  | invalidType found expected => "invalid type: " ++ found.text ++ ", expected " ++ expected
  | invalidValue found expected => "invalid value: " ++ found.text ++ ", expected " ++ expected
  | invalidLength length expected =>
    "invalid length " ++ toString length ++ ", expected " ++ expected

/-- The wording of a cause. -/
def Cause.message : Cause → String
  | fault f => f.message
  | unfinished u => u.message
  | mismatch m => m.message

/-- The name of a cause's category. -/
def Cause.category : Cause → String
  | fault _ => "syntax"
  | unfinished _ => "eof"
  | mismatch _ => "data"

/-- The wording of an error, with its position if that is known. -/
def Error.message (e : Error) : String :=
  match e.position with
  | none => e.cause.message
  | some p =>
    e.cause.message ++ " at line " ++ toString p.line ++ " column " ++ toString p.column

end ExprForest.Json

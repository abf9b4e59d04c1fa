import ExprForest.Forest.Basic
import ExprForest.Line
import ExprForest.Parser
import ExprForest.Text.Blank
import ExprForest.Text.Utf8

namespace ExprForest.Parser

/-!
# Parsing a buffer

A buffer is parsed line by line, all or nothing: every statement line gives a tree, or the first line
that fails gives the error, in the coordinates of the buffer.

* `forest` — parses a text;
* `forestOfBytes` — parses bytes, which must be there and must be UTF-8.

The notes that are traced on the way are left out.  Memory is wanting only where an engine says so.
-/

variable {g : Grammar}

/-- Whether a line is passed over. -/
def skips (p : Parser g) (line : Line) : Bool :=
  p.settings.skipBlankLines && Text.isBlank line.text

/-- Parses lines of a buffer behind those whose trees are drafted. -/
def forestOfLines (p : Parser g) (buffer : String) (draft : Forest.Draft) (log : Log) :
    List Line → Outcome Forest × Log
  | [] => (.success draft.commit, log)
  | line :: lines =>
    if p.skips line then forestOfLines p buffer draft log lines
    else
      match p.statement line.text log with
      | (.success t, log) => forestOfLines p buffer (draft.push t) log lines
      | (.failure e, log) => (.failure (e.inBuffer line.number line.offset buffer), log)
      | (.aborted, log) => (.aborted, log)

/-- Parses every statement line of a text. -/
def forest (p : Parser g) (buffer : String) (log : Log) : Outcome Forest × Log :=
  p.forestOfLines buffer .empty log (Line.split buffer)

/-! ### Bytes -/

/-- A byte as two upper-case hexadecimal digits behind `\x`. -/
def byteText (b : UInt8) : String :=
  let digit (n : Nat) : Char := (Nat.digitChar n).toUpper
  "\\x" ++ String.ofList [digit (b.toNat / 16), digit (b.toNat % 16)]

/-- The error of bytes that are not UTF-8: an invalid token at the replacement character that stands
    for the first ill-formed sequence in the lossy reading. -/
def malformedBytes (m : Text.Utf8.Malformed) : ParseError :=
  let start := Text.byteLength m.before
  let lineBefore := (m.before.reverse.takeWhile (· ≠ '\n')).reverse
  let lineNumber := m.before.count '\n' + 1
  let lineStart := start - Text.byteLength lineBefore
  let behind := (m.lossy.drop m.before.length).takeWhile (· ≠ '\n')
  let line := String.ofList (lineBefore ++ behind)
  let inLine := Text.byteLength lineBefore
  let lexeme := String.join (m.bytes.map byteText)
  (ParseError.invalidToken lexeme (.cover line inLine (inLine + '\ufffd'.utf8Size)) ⟨false, line⟩)
    |>.inBuffer lineNumber lineStart (String.ofList m.lossy)

/-- Parses the text of some bytes.  An absent buffer and bytes that are not UTF-8 never reach the
    grammar. -/
def forestOfBytes (p : Parser g) (input : Option (List UInt8)) (log : Log) :
    Outcome Forest × Log :=
  match input with
  | none => (.failure (.invalidArgument "input buffer is absent"), log)
  | some bytes =>
    match Text.Utf8.read bytes with
    | .ok text => p.forest text log
    | .error m => (.failure (malformedBytes m), log)

end ExprForest.Parser

import ExprForest.ParseError.Frame
import ExprForest.Text.Wrap

namespace ExprForest.ParseError

/-!
# Reports

A parse error as framed text: its code, its message, the lines it points into, and advice.

* `headline` — the message, wrapped;
* `report` — the whole text.
-/

/-- How many columns a message may take, its margin left aside. -/
def messageWidth : Nat := 194

/-- The lines of a message.  The first one follows a cross, the others a stroke. -/
def headline (message : String) : List String :=
  let lines := (message.splitOn "\n").flatMap fun paragraph =>
    (Text.wrap messageWidth paragraph.toList).map String.ofList
  match lines with
  | [] => []
  | first :: rest => ("  × " ++ first) :: rest.map fun line => "  │ " ++ line

/-- The frame of an error, for the kinds that have a place. -/
def frame? (e : ParseError) : Option Frame := do
  let (_, source) ← e.place?
  let stretch ← e.stretch?
  let label ← e.label?
  return ⟨source, stretch.offset, stretch.length, label⟩

/-- The report of an error. -/
def report (e : ParseError) : String :=
  let frame := (e.frame?.map Frame.draw).getD []
  let help := e.help?.toList.map fun text => "  help: " ++ text
  let lines := [e.code, ""] ++ headline e.message ++ frame ++ help
  String.join (lines.map fun line => line ++ "\n")

end ExprForest.ParseError

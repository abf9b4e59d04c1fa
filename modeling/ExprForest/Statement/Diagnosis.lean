import ExprForest.Statement.Search
import ExprForest.Token.Nesting

namespace ExprForest.Statement

/-!
# What is reported about a line

* `Rule.word`, `listing` — the words for rules, and words in a message;
* `Tries.expected`, `Tries.failure` — what could have stood where the tries went furthest, and the failure of
  a line that is no statement;
* `strayFailure`, `tooDeep` — the failures of the two passes before the grammar;
* `outcome` — the tree of a line or its failure: first the tokens, then their nesting, then the
  grammar.
-/

/-! ### Lists of what is expected -/

/-- The word for a rule. -/
def Rule.word : Rule → String
  | number => "number"
  | identifier => "identifier"
  | add => "'+'"
  | subtract => "'-'"
  | multiply => "'*'"
  | divide => "'/'"
  | exponent => "'^'"
  | assign => "'='"
  | openParen => "'('"
  | closeParen => "')'"
  | comma => "','"
  | call => "call"
  | arguments => "arguments"
  | endOfInput => "end of line"
  | _ => "expression"

/-- Words in a message, the last one behind `or`. -/
def listing (words : List String) : String :=
  match words.getLast?, words.dropLast with
  | none, _ => "input"
  | some last, [] => last
  | some last, rest => ", ".intercalate rest ++ " or " ++ last

namespace Tries

/-- The rules that were tried, in the order of their declaration, each once. -/
def expected (tries : Tries) : List Rule :=
  Rule.declared.filter fun rule => rule ∈ tries.rules

/-- The words for the rules that were tried, each once. -/
def words (tries : Tries) : List String :=
  (tries.expected.map Rule.word).eraseDups

end Tries

/-- What stands at a byte of a line: a character or the end. -/
def foundAt (line : String) (offset : Nat) : String :=
  match Text.charAt? line offset with
  | some c => "'" ++ String.singleton c ++ "'"
  | none => "end of line"

/-! ### Failures -/

/-- The failure of a line that is no statement: an empty span at the furthest byte at which a rule was
    tried. -/
def Tries.failure (line : String) (tries : Tries) : EngineError :=
  let found := foundAt line tries.place
  let message :=
    match tries.expected with
    | [] => "unexpected " ++ found
    | _ => "expected " ++ listing tries.words ++ ", found " ++ found
  .syntaxError message (.point line tries.place)

/-- The failure of a line with a character at which no lexeme starts. -/
def strayFailure (line : String) (stray : Stray) : EngineError :=
  .invalidToken (String.singleton stray.char)
    (.cover line stray.start (stray.start + stray.char.utf8Size))

/-- The failure of a line whose parentheses nest too deep: a span over the first that does. -/
def tooDeep (line : String) (limit : Nat) (paren : Token) : EngineError :=
  .syntaxError ("parentheses nest deeper than " ++ toString limit ++ " levels")
    (.cover line paren.start (paren.start + 1))

/-! ### Outcomes -/

/-- The tree that the grammar gives a line, or why there is none. -/
def reduce (line : String) : Except EngineError Tree :=
  match search line with
  | .ok parts => treeOf parts
  | .error tries => .error (tries.failure line)

/-- The tree of a line, or why there is none. -/
def outcome (limit : Nat) (line : String) : Except EngineError Tree :=
  match Token.ofLine line with
  | .error stray => .error (strayFailure line stray)
  | .ok tokens =>
    match Token.firstDeeper? limit 0 tokens with
    | some paren => .error (tooDeep line limit paren)
    | none => reduce line

end ExprForest.Statement

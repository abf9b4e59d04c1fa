import ExprForest.Statement.Syntax
import ExprForest.Token.Lexer

namespace ExprForest.Statement

/-!
# Searching a line for a statement

The rules of the statement grammar on the characters of a line.  Rules try alternatives in order, repeat as
often as they can, and never come back to a choice that succeeded; between the parts of a rule spaces are
passed over.  What was tried in vain is taken down on the way, as far as it stands at the furthest byte at
which anything was.

* `Place` — a byte of a line, with the characters from there on;
* `Tries` — the rules tried in vain, with `Tries.note` for one more;
* `Search` — what a rule finds at a place, and its tries, with the combinations of rules;
* `Search.expression`, `Search.statement` — the rules, in which expressions nest no deeper than some levels;
* `search` — the parts of a line, or the tries of a line that is no statement.

The rules are those of the statement grammar, in its order.  How they are run is assumed of the library that
runs a parsing expression grammar: that spaces are passed over between the parts of a rule but not inside
lexemes, that repetition is greedy, and that tries are taken down as `Tries.note` does.  Signs that a rule
takes without naming them, which are the parentheses and the comma, leave no part and are no tries.
-/

/-! ### Places -/

/-- A place in a line: the byte at which it stands, and the characters from there on. -/
structure Place where
  offset : Nat
  rest : List Char

namespace Place

/-- The start of a line. -/
def start (line : String) : Place := ⟨0, line.toList⟩

/-- Behind the spaces at the head of a text that starts at byte `offset`. -/
def skipFrom (offset : Nat) : List Char → Place
  | [] => ⟨offset, []⟩
  | c :: cs => if isSpace c then skipFrom (offset + c.utf8Size) cs else ⟨offset, c :: cs⟩

/-- Behind the spaces that stand at a place. -/
def skip (p : Place) : Place := skipFrom p.offset p.rest

/-- Behind a text that stands at a place. -/
def behind (p : Place) (text : List Char) : Place :=
  ⟨p.offset + Text.byteLength text, p.rest.drop text.length⟩

end Place

/-! ### Tries -/

/-- The rules tried in vain at the furthest byte at which any was, in the order in which they were tried. -/
structure Tries where
  place : Nat
  rules : List Rule
  deriving DecidableEq

namespace Tries

/-- Nothing was tried. -/
def none : Tries := ⟨0, []⟩

/-- The rules tried at a byte, if it is the furthest. -/
def rulesAt (tries : Tries) (offset : Nat) : List Rule :=
  if tries.place = offset then tries.rules else []

/-- Takes down that a rule was tried in vain at a byte, where the tries before it were `before`.  The rule
    stands for all that were tried at this byte inside it, unless that is a single one, which says more. -/
def note (tries before : Tries) (rule : Rule) (offset : Nat) : Tries :=
  let earlier := (before.rulesAt offset).length
  if (tries.rulesAt offset).length = earlier + 1 then tries
  else if tries.place < offset then ⟨offset, [rule]⟩
  else if tries.place = offset then ⟨offset, tries.rules.take earlier ++ [rule]⟩
  else tries

end Tries

/-! ### Combinations -/

/-- What is found at a place. -/
inductive Found where
  | failed
  /-- The search was given up because expressions nest too deep. -/
  | tooDeep
  /-- The parts of the match, and the place behind it. -/
  | matched (parts : List Part) (place : Place)

/-- What is found at a place, with the tries before it and behind it. -/
def Search := Place → Tries → Found × Tries

namespace Search

/-- One after the other, with spaces between them. -/
def andThen (p q : Search) : Search := fun place tries =>
  match p place tries with
  | (.failed, tries) => (.failed, tries)
  | (.tooDeep, tries) => (.tooDeep, tries)
  | (.matched parts next, tries) =>
    match q next.skip tries with
    | (.failed, tries) => (.failed, tries)
    | (.tooDeep, tries) => (.tooDeep, tries)
    | (.matched more next, tries) => (.matched (parts ++ more) next, tries)

/-- The second one only where the first one fails. -/
def orElse (p q : Search) : Search := fun place tries =>
  match p place tries with
  | (.failed, tries) => q place tries
  | found => found

/-- Repeats a search until it fails, with spaces before each time.  Each time takes up characters, so there
    are no more of them than in `room`, the characters before the first time. -/
def manyFrom (p : Search) : List Char → Search
  | room, place, tries =>
    match p place.skip tries with
    | (.failed, tries) => (.matched [] place, tries)
    | (.tooDeep, tries) => (.tooDeep, tries)
    | (.matched parts next, tries) =>
      match room with
      | [] => (.matched parts next, tries)
      | _ :: room =>
        match manyFrom p room next tries with
        | (.failed, tries) => (.failed, tries)
        | (.tooDeep, tries) => (.tooDeep, tries)
        | (.matched more next, tries) => (.matched (parts ++ more) next, tries)

/-- Repeats a search as often as it succeeds, perhaps not at all. -/
def many (p : Search) : Search := fun place tries => manyFrom p place.rest place tries

/-- A rule with a name: if it fails, that is taken down. -/
def named (rule : Rule) (p : Search) : Search := fun place tries =>
  match p place tries with
  | (.failed, after) => (.failed, after.note tries rule place.offset)
  | found => found

/-- Makes one part of a rule of all parts of a match. -/
def phrase (rule : Rule) (p : Search) : Search := named rule fun place tries =>
  match p place tries with
  | (.matched parts next, tries) => (.matched [.phrase rule parts] next, tries)
  | found => found

/-- Operands with an operator between each two of them. -/
def chain (rule : Rule) (operand operator : Search) : Search :=
  phrase rule (operand.andThen (operator.andThen operand).many)

/-! ### Lexemes -/

/-- A text at the head of the characters, as `read` tells it, with the parts that are left of it. -/
def reading (read : List Char → List Char) (parts : List Char → List Part) : Search :=
  fun place tries =>
    match read place.rest with
    | [] => (.failed, tries)
    | text => (.matched (parts text) (place.behind text), tries)

/-- A rule that takes a text and leaves a part with it. -/
def lexeme (rule : Rule) (read : List Char → List Char) : Search :=
  named rule (reading read fun text => [.lexeme rule text])

/-- A text of which no part is left. -/
def silent (read : List Char → List Char) : Search :=
  reading read fun _ => []

/-- The text of a given sign. -/
def sign (c : Char) : List Char → List Char
  | [] => []
  | d :: _ => if d = c then [c] else []

/-- The longest name at the head of a text.  Empty if there is none. -/
def name : List Char → List Char
  | [] => []
  | c :: cs => if isNameStart c then c :: cs.takeWhile isNameRest else []

/-- A number. -/
def number : Search := lexeme .number Numeral.longest

/-- A name. -/
def identifier : Search := lexeme .identifier name

/-- The start of the line. -/
def startOfInput : Search := fun place tries =>
  if place.offset = 0 then (.matched [] place, tries) else (.failed, tries)

/-- The end of the line. -/
def endOfInput : Search := named .endOfInput fun place tries =>
  match place.rest with
  | [] => (.matched [.lexeme .endOfInput []] place, tries)
  | _ :: _ => (.failed, tries)

/-! ### Rules -/

section Rules

-- `nested` finds the expressions inside parentheses.
variable (nested : Search)

/-- Expressions with commas between them. -/
def arguments : Search := chain .arguments nested (silent (sign ','))

/-- A name with arguments in parentheses. -/
def call : Search :=
  phrase .call (identifier.andThen
    ((silent (sign '(')).andThen ((arguments nested).andThen (silent (sign ')')))))

/-- A call, a number, a name, or an expression in parentheses, in this order. -/
def primary : Search :=
  (call nested).orElse (number.orElse (identifier.orElse
    ((silent (sign '(')).andThen (nested.andThen (silent (sign ')'))))))

/-- Primaries with `^` between them. -/
def power : Search := chain .power (primary nested) (lexeme .exponent (sign '^'))

/-- Powers with signs of a product between them. -/
def product : Search :=
  chain .product (power nested) ((lexeme .multiply (sign '*')).orElse (lexeme .divide (sign '/')))

/-- Products with signs of a sum between them. -/
def sum : Search :=
  chain .sum (product nested) ((lexeme .add (sign '+')).orElse (lexeme .subtract (sign '-')))

/-- Sums with `=` between them. -/
def expressionOver : Search := chain .expression (sum nested) (lexeme .assign (sign '='))

end Rules

/-- An expression, inside which expressions nest at most `levels` deep. -/
def expression : Nat → Search
  | 0, place, tries => expressionOver (fun _ tries => (.tooDeep, tries)) place tries
  | levels + 1, place, tries => expressionOver (expression levels) place tries

/-- An expression between the start and the end of the line. -/
def statement (levels : Nat) : Search :=
  phrase .statement (startOfInput.andThen ((expression levels).andThen endOfInput))

end Search

/-- The parts of a line that is a statement, or the tries of one that is none.  Expressions nest no deeper
    than the line is long, so that the search is never given up. -/
def search (line : String) : Except Tries (List Part) :=
  match Search.statement line.length (.start line) .none with
  | (.matched parts _, _) => .ok parts
  | (_, tries) => .error tries

end ExprForest.Statement

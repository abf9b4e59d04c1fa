namespace ExprForest.Text

/-!
# Where a text may be broken

The line breaking rules of Unicode 15, for printable ASCII.  Any other character counts as a letter.

* `BreakClass` — what a character is to these rules;
* `BreakClass.joins`, `BreakClass.joinsOverSpaces` — which characters stay together, side by side and with
  spaces between them;
* `words` — a text cut at every place where it may be broken.  Spaces stay with the word before them.
-/

/-- What a character is to the rules of line breaking. -/
inductive BreakClass where
  | space
  /-- Opens a bracket. -/
  | opening
  /-- Closes a round or a square bracket. -/
  | closing
  /-- Closes a curly bracket. -/
  | closingCurly
  | exclamation
  | quotation
  /-- Separates the parts of a number or a sentence. -/
  | separator
  | slash
  /-- Stands before a number. -/
  | sign
  /-- Stands behind a number. -/
  | percent
  | digit
  | hyphen
  /-- A text may be broken behind it. -/
  | bar
  | letter
  deriving DecidableEq

namespace BreakClass

/-- The class of a character. -/
def of (c : Char) : BreakClass :=
  match c with
  | ' ' => space
  | '(' | '[' | '\x7b' => opening
  | ')' | ']' => closing
  | '\x7d' => closingCurly
  | '!' | '?' => exclamation
  | '"' | '\'' => quotation
  | ',' | '.' | ':' | ';' => separator
  | '/' => slash
  | '$' | '+' | '\\' => sign
  | '%' => percent
  | '-' => hyphen
  | '|' | '\t' => bar
  | c => if c.isDigit then digit else letter

/-- Nothing is broken before such a character, not even behind spaces. -/
def clings : BreakClass → Bool
  | closing | closingCurly | exclamation | separator | slash => true
  | _ => false

/-- Whether two characters stay together when they stand side by side. -/
def joins (a b : BreakClass) : Bool :=
  b.clings ||
  match a, b with
  | _, space | _, quotation | _, hyphen | _, bar => true
  | opening, _ | quotation, _ => true
  | letter, letter | letter, digit | digit, letter | digit, digit => true
  | letter, sign | letter, percent | letter, opening => true
  | digit, sign | digit, percent | digit, opening => true
  | sign, letter | sign, digit | sign, opening => true
  | percent, letter | percent, digit | percent, opening => true
  | closing, letter | closing, digit | closing, sign | closing, percent => true
  | closingCurly, sign | closingCurly, percent => true
  | separator, letter | separator, digit => true
  | slash, digit | hyphen, digit => true
  | _, _ => false

/-- Whether two characters stay together when there are only spaces between them. -/
def joinsOverSpaces (a b : BreakClass) : Bool :=
  b.clings || a == opening || (a == quotation && b == opening)

end BreakClass

/-- What stands before a character. -/
structure Before where
  /-- The class of the last character that is no space, if there is one. -/
  last : Option BreakClass
  /-- Whether spaces follow it. -/
  spaced : Bool

namespace Before

/-- Nothing. -/
def none : Before := ⟨.none, false⟩

/-- The same with one more character. -/
def push (b : Before) (c : Char) : Before :=
  match BreakClass.of c with
  | .space => { b with spaced := true }
  | k => ⟨some k, false⟩

/-- Whether a text may be broken before the character `c`.  Behind a hyphen it is not broken here:
    hyphenated words are taken apart by other rules. -/
def mayBreak (b : Before) (c : Char) : Bool :=
  match BreakClass.of c, b.last, b.spaced with
  | .space, _, _ => false
  | k, .none, spaced => spaced && !k.clings
  | k, some a, true => !a.joinsOverSpaces k
  | k, some a, false => a != .hyphen && !a.joins k

end Before

/-- Cuts the rest of a text, behind the words already cut off and the characters of the word that is being
    read, both listed last first. -/
def wordsFrom (done : List (List Char)) (word : List Char) (before : Before) :
    List Char → List (List Char)
  | [] => (word.reverse :: done).reverse
  | c :: cs =>
    if before.mayBreak c then wordsFrom (word.reverse :: done) [c] (before.push c) cs
    else wordsFrom done (c :: word) (before.push c) cs

/-- A list of words whose last two are one. -/
def joinLastTwo (words : List (List Char)) : List (List Char) :=
  match words.reverse with
  | last :: previous :: earlier => ((previous ++ last) :: earlier).reverse
  | _ => words

/-- A text cut at every place where it may be broken.  A text that ends with a hyphen keeps its last two
    words together. -/
def words (text : List Char) : List (List Char) :=
  let cut := wordsFrom [] [] .none text
  if text.getLast? = some '-' then joinLastTwo cut else cut

/-- Cutting loses nothing. -/
theorem flatten_wordsFrom (done : List (List Char)) (word : List Char) (before : Before)
    (text : List Char) :
    (wordsFrom done word before text).flatten = done.reverse.flatten ++ word.reverse ++ text := by
  induction text generalizing done word before with
  | nil => simp [wordsFrom]
  | cons c cs ih =>
    rw [wordsFrom]
    split <;> simp [ih]

/-- Joining words loses nothing. -/
theorem flatten_joinLastTwo (words : List (List Char)) :
    (joinLastTwo words).flatten = words.flatten := by
  unfold joinLastTwo
  split
  · rename_i last previous earlier h
    have := congrArg List.reverse h
    rw [List.reverse_reverse] at this
    simp [this]
  · rfl

/-- The words of a text, one after another, are the text. -/
theorem flatten_words (text : List Char) : (words text).flatten = text := by
  unfold words
  split <;> simp [flatten_joinLastTwo, flatten_wordsFrom]

end ExprForest.Text

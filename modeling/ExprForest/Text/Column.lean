namespace ExprForest.Text

/-!
# Bytes and columns

Positions inside a line are byte offsets of its UTF-8 form; columns count characters from one.

* `byteLength` — the bytes that a list of characters takes;
* `charsWithin?` — how many characters the first bytes of a text make up, if they end between two
  characters;
* `columnAt` — the column at a byte offset;
* `charAt?` — the character that starts at a byte offset.
-/

/-- The bytes that a list of characters takes in UTF-8. -/
def byteLength (cs : List Char) : Nat :=
  cs.foldl (fun n c => n + c.utf8Size) 0

/-- `seen` and the number of characters in the first `bytes` bytes of a text, if these bytes end
    between two characters. -/
def charsFrom? (seen : Nat) : List Char → Nat → Option Nat
  | _, 0 => some seen
  | [], _ + 1 => none
  | c :: cs, n + 1 =>
    if c.utf8Size ≤ n + 1 then charsFrom? (seen + 1) cs (n + 1 - c.utf8Size) else none

/-- The number of characters in the first `bytes` bytes of a text, if these bytes end between two
    characters. -/
def charsWithin? (text : String) (bytes : Nat) : Option Nat :=
  charsFrom? 0 text.toList bytes

/-- The column at a byte offset of a line.  An offset behind the line stands for its end, and inside
    a character bytes are counted instead of characters. -/
def columnAt (line : String) (offset : Nat) : Nat :=
  let inside := min offset line.utf8ByteSize
  (charsWithin? line inside).getD inside + 1

/-- The character that starts behind so many bytes of a text. -/
def charFrom? : List Char → Nat → Option Char
  | [], _ => none
  | c :: _, 0 => some c
  | c :: cs, n + 1 => if c.utf8Size ≤ n + 1 then charFrom? cs (n + 1 - c.utf8Size) else none

/-- The character that starts at a byte offset of a text.  There is none at its end, behind it or inside
    a character. -/
def charAt? (text : String) (offset : Nat) : Option Char :=
  charFrom? text.toList offset

end ExprForest.Text

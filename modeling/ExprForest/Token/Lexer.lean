import ExprForest.Text.Column
import ExprForest.Token.Basic

namespace ExprForest

/-!
# From a line to its tokens

Lexemes are read greedily: a number or a name reaches as far as it can.  Spaces, tabs and carriage
returns separate lexemes and mean nothing else.

* `Numeral.longest` — the longest number at the head of a text;
* `Lexeme.read?` — the lexeme at the head of a text, with what follows it;
* `Token.ofLine` — all tokens of a line, or the first character at which no lexeme starts.
-/

/-- Separates lexemes. -/
def isSpace (c : Char) : Bool :=
  c == ' ' || c == '\t' || c == '\r'

/-- Starts a name. -/
def isNameStart (c : Char) : Bool :=
  c.isAlpha || c == '_'

/-- Continues a name. -/
def isNameRest (c : Char) : Bool :=
  c.isAlphanum || c == '_'

namespace Numeral

/-- A power of ten at the head of a text: `e` or `E`, an optional sign, and digits.  Empty if one of
    them is missing. -/
def power : List Char → List Char
  | e :: cs =>
    if e = 'e' ∨ e = 'E' then
      let (sign, digits) :=
        match cs with
        | '+' :: ds => (['+'], ds)
        | '-' :: ds => (['-'], ds)
        | _ => ([], cs)
      match digits.takeWhile Char.isDigit with
      | [] => []
      | run => e :: sign ++ run
    else []
  | [] => []

/-- Digits with an optional point at the head of a text, at least one digit on one side of the point.
    Empty if there is none. -/
def mantissa (cs : List Char) : List Char :=
  let whole := cs.takeWhile Char.isDigit
  match cs.drop whole.length with
  | '.' :: behind =>
    let decimals := behind.takeWhile Char.isDigit
    if whole.isEmpty && decimals.isEmpty then [] else whole ++ '.' :: decimals
  | _ => whole

/-- The longest number at the head of a text.  Empty if there is none. -/
def longest (cs : List Char) : List Char :=
  match mantissa cs with
  | [] => []
  | m => m ++ power (cs.drop m.length)

end Numeral

namespace Lexeme

/-- The lexeme at the head of a text, with what follows it. -/
def read? : List Char → Option (Lexeme × List Char)
  | [] => none
  | c :: cs =>
    match ofSign? c with
    | some l => some (l, cs)
    | none =>
      if isNameStart c then
        some (name (c :: cs.takeWhile isNameRest), cs.dropWhile isNameRest)
      else
        match Numeral.longest (c :: cs) with
        | [] => none
        | text => some (number text, (c :: cs).drop text.length)

/-- Reading a lexeme uses up part of the text. -/
theorem length_lt_of_read? {cs rest : List Char} {l : Lexeme} (h : read? cs = some (l, rest)) :
    rest.length < cs.length := by
  match cs with
  | [] => simp [read?] at h
  | c :: cs =>
    simp only [read?] at h
    split at h
    · obtain ⟨-, rfl⟩ := Prod.mk.inj (Option.some.inj h)
      exact Nat.lt_succ_self _
    · split at h
      · obtain ⟨-, rfl⟩ := Prod.mk.inj (Option.some.inj h)
        exact Nat.lt_succ_of_le (List.dropWhile_suffix _).length_le
      · split at h
        · cases h
        · rename_i hne
          obtain ⟨-, rfl⟩ := Prod.mk.inj (Option.some.inj h)
          have : 0 < (Numeral.longest (c :: cs)).length := List.length_pos_iff.mpr hne
          simp only [List.length_drop, List.length_cons]; omega

end Lexeme

/-- A character at which no lexeme starts, and the byte of the line at which it stands. -/
structure Stray where
  char : Char
  start : Nat
  deriving DecidableEq

namespace Token

/-- Reads the tokens of a text that starts at byte `start` of its line, behind those already read,
    which are listed last first. -/
def scan (read : List Token) (start : Nat) : List Char → Except Stray (List Token)
  | [] => .ok read.reverse
  | c :: cs =>
    if isSpace c then scan read (start + c.utf8Size) cs
    else
      match h : Lexeme.read? (c :: cs) with
      | none => .error ⟨c, start⟩
      | some (lexeme, rest) =>
        have : rest.length < cs.length + 1 := Lexeme.length_lt_of_read? h
        scan (⟨lexeme, start⟩ :: read) (start + Text.byteLength lexeme.chars) rest
termination_by cs => cs.length

/-- The tokens of a line, or the first character at which none starts. -/
def ofLine (line : String) : Except Stray (List Token) :=
  scan [] 0 line.toList

end Token

end ExprForest

import ExprForest.Json.Container
import ExprForest.Decimal.Radix
import ExprForest.Proofs.Lexical.Rules

namespace ExprForest.Json.Grammar

/-!
# The grammar of JSON texts

Which texts are JSON, said apart from the functions that read them.  Brackets nest as deep as they like, and a
number has as many digits as it likes.

* `Gap` — blanks between the parts of a text;
* `IsBody`, `Spells` — what stands between two quotes, and the characters that it spells.  Half of a surrogate
  pair may stand alone, but spells nothing then;
* `IsNumber`, `IsNatural` — the texts of numbers, and those of whole numbers with their value;
* `Item`, `Member`, `IsValue` — values, with the blanks in and around them;
* `IsObjectText` — the whole texts that are objects, with their members.
-/

open ExprForest.Numeral (IsDigits IsPower)
open Literal (escaped? hexFour? isLeading isTrailing)

/-- Blanks between the parts of a text. -/
structure Gap where
  chars : List Char
  isBlank : ∀ ch ∈ chars, Cursor.isBlank ch = true

/-- No blanks. -/
def Gap.none : Gap :=
  ⟨[], List.forall_mem_nil _⟩

/-! ### Strings -/

/-- A character of a string as it may be written: itself, a letter behind a backslash, or the four digits of a
    code unit. -/
inductive IsPiece : List Char → Prop where
  | plain {ch : Char} :
      ch ≠ '"' → ch ≠ '\\' → 0x20 ≤ ch.toNat →
      IsPiece [ch]
  | letter {letter meant : Char} :
      escaped? letter = some meant →
      IsPiece ['\\', letter]
  | unit {a b c d : Char} {n : Nat} :
      hexFour? [a, b, c, d] = some n →
      IsPiece ['\\', 'u', a, b, c, d]

/-- What may stand between two quotes. -/
inductive IsBody : List Char → Prop where
  | nil :
      IsBody []
  | cons {piece body : List Char} :
      IsPiece piece → IsBody body →
      IsBody (piece ++ body)

/-- The spellings of a character.  One beyond the basic plane is spelled by a pair of code units. -/
inductive SpellsOne : List Char → Char → Prop where
  | plain {ch : Char} :
      ch ≠ '"' → ch ≠ '\\' → 0x20 ≤ ch.toNat →
      SpellsOne [ch] ch
  | letter {letter meant : Char} :
      escaped? letter = some meant →
      SpellsOne ['\\', letter] meant
  | unit {a b c d : Char} {n : Nat} :
      hexFour? [a, b, c, d] = some n → isLeading n = false → isTrailing n = false →
      SpellsOne ['\\', 'u', a, b, c, d] (Char.ofNat n)
  | pair {a b c d a' b' c' d' : Char} {n m : Nat} :
      hexFour? [a, b, c, d] = some n → isLeading n = true →
      hexFour? [a', b', c', d'] = some m → isTrailing m = true →
      SpellsOne ['\\', 'u', a, b, c, d, '\\', 'u', a', b', c', d']
        (Char.ofNat (0x10000 + 1024 * (n - 0xd800) + (m - 0xdc00)))

/-- The spellings of a row of characters. -/
inductive Spells : List Char → List Char → Prop where
  | nil :
      Spells [] []
  | cons {spelling body : List Char} {ch : Char} {cs : List Char} :
      SpellsOne spelling ch → Spells body cs →
      Spells (spelling ++ body) (ch :: cs)

/-- Characters that need no other spelling spell themselves. -/
theorem isBody_and_spells_self {cs : List Char}
    (h : ∀ ch ∈ cs, ch ≠ '"' ∧ ch ≠ '\\' ∧ 0x20 ≤ ch.toNat) : IsBody cs ∧ Spells cs cs := by
  induction cs with
  | nil => exact ⟨.nil, .nil⟩
  | cons ch cs ih =>
    obtain ⟨⟨hquote, hbackslash, hcontrol⟩, hcs⟩ := List.forall_mem_cons.mp h
    obtain ⟨hbody, hspells⟩ := ih hcs
    exact ⟨.cons (.plain hquote hbackslash hcontrol) hbody,
      .cons (.plain hquote hbackslash hcontrol) hspells⟩

/-! ### Numbers -/

/-- A whole number without a sign.  No zero stands before its other digits. -/
def IsWhole (ds : List Char) : Prop :=
  IsDigits ds ∧ (ds.head? = some '0' → ds = ['0'])

/-- What may follow the digits before the point. -/
inductive IsTail : List Char → Prop where
  | nil :
      IsTail []
  | fraction {fs : List Char} :
      IsDigits fs →
      IsTail ('.' :: fs)
  | power {x : List Char} :
      IsPower x →
      IsTail x
  | both {fs x : List Char} :
      IsDigits fs → IsPower x →
      IsTail ('.' :: (fs ++ x))

/-- The text of a number. -/
inductive IsNumber : List Char → Prop where
  | positive {ds x : List Char} :
      IsWhole ds → IsTail x →
      IsNumber (ds ++ x)
  | negative {ds x : List Char} :
      IsWhole ds → IsTail x →
      IsNumber ('-' :: (ds ++ x))

/-- The text of a whole number without a sign, and its value. -/
def IsNatural (text : List Char) (n : Nat) : Prop :=
  IsWhole text ∧ Decimal.natOfDigits text = n

/-! ### Values -/

/-- A value and the blanks around it. -/
structure Item where
  before : Gap
  value : List Char
  behind : Gap

/-- The text of an item. -/
def Item.text (i : Item) : List Char :=
  i.before.chars ++ (i.value ++ i.behind.chars)

/-- A member of an object: its name between quotes, the blanks around that, and its value. -/
structure Member where
  before : Gap
  name : List Char
  isBody : IsBody name
  behind : Gap
  item : Item

/-- The text of a member. -/
def Member.text (m : Member) : List Char :=
  m.before.chars ++ '"' :: (m.name ++ '"' :: (m.behind.chars ++ ':' :: m.item.text))

/-- Parts with commas between them, in brackets.  Where there is no part, there may be blanks. -/
def bracketed (b : Bracket) (gap : Gap) (parts : List (List Char)) : List Char :=
  b.opening :: (gap.chars ++ ([','].intercalate parts ++ [b.closing]))

/-- The text of a value, without blanks around it. -/
inductive IsValue : List Char → Prop where
  | null :
      IsValue "null".toList
  | bool (b : Bool) :
      IsValue (toString b).toList
  | number {text : List Char} :
      IsNumber text →
      IsValue text
  | string {body : List Char} :
      IsBody body →
      IsValue ('"' :: (body ++ ['"']))
  | array {gap : Gap} {items : List Item} :
      (∀ i ∈ items, IsValue i.value) →
      IsValue (bracketed .square gap (items.map Item.text))
  | object {gap : Gap} {members : List Member} :
      (∀ m ∈ members, IsValue m.item.value) →
      IsValue (bracketed .curly gap (members.map Member.text))

/-- A whole text that is an object of some members. -/
def IsObjectText (text : List Char) (members : List Member) : Prop :=
  (∀ m ∈ members, IsValue m.item.value) ∧ ∃ before gap behind : Gap,
    text = before.chars ++ (bracketed .curly gap (members.map Member.text) ++ behind.chars)

/-- Whether the name of a member is a given one, however it is spelled. -/
def Member.Named (m : Member) (name : String) : Prop :=
  Spells m.name name.toList

end ExprForest.Json.Grammar

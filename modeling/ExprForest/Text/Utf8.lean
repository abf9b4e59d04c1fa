namespace ExprForest.Text.Utf8

/-!
# Reading UTF-8

Bytes are read as the longest well-formed sequences.  Where none starts, the bytes that could still
have begun one are set apart together, and a lossy reading puts one replacement character in their
place.

* `Piece` — a character, or the bytes of one ill-formed sequence;
* `pieces` — a list of bytes cut into pieces;
* `read` — the text, or the first ill-formed sequence with what surrounds it.
-/

/-- A character, or an ill-formed sequence.  Both tell how many bytes follow their first one. -/
inductive Piece where
  | char (c : Char) (following : Nat)
  | bad (first : UInt8) (following : List UInt8)

/-- What may follow a first byte: the range of the second byte and the number of bytes behind it that
    are plain continuations. -/
structure Lead where
  /-- The bits of the character that the first byte holds. -/
  bits : Nat
  low : UInt8
  high : UInt8
  further : Nat

/-- The sequences of more than one byte, by their first byte. -/
def lead? (b : UInt8) : Option Lead :=
  if 0xc2 ≤ b ∧ b ≤ 0xdf then some ⟨b.toNat - 0xc0, 0x80, 0xbf, 0⟩
  else if b = 0xe0 then some ⟨0, 0xa0, 0xbf, 1⟩
  else if b = 0xed then some ⟨0xd, 0x80, 0x9f, 1⟩
  else if 0xe1 ≤ b ∧ b ≤ 0xef then some ⟨b.toNat - 0xe0, 0x80, 0xbf, 1⟩
  else if b = 0xf0 then some ⟨0, 0x90, 0xbf, 2⟩
  else if 0xf1 ≤ b ∧ b ≤ 0xf3 then some ⟨b.toNat - 0xf0, 0x80, 0xbf, 2⟩
  else if b = 0xf4 then some ⟨4, 0x80, 0x8f, 2⟩
  else none

/-- Reads the bytes behind the first one: the next in `low`–`high`, then `further` continuations.
    `code` collects the bits of the character and `seen` the bytes, the latest first. -/
def continuation (first : UInt8) (code : Nat) (seen : List UInt8) (low high : UInt8) (further : Nat)
    (bytes : List UInt8) : Piece :=
  match bytes with
  | [] => .bad first seen.reverse
  | b :: bs =>
    if low ≤ b ∧ b ≤ high then
      let code := 64 * code + (b.toNat - 0x80)
      match further with
      | 0 => .char (Char.ofNat code) (seen.length + 1)
      | n + 1 => continuation first code (b :: seen) 0x80 0xbf n bs
    else .bad first seen.reverse

/-- The piece that starts with a given byte. -/
def pieceAt (first : UInt8) (bytes : List UInt8) : Piece :=
  if first < 0x80 then .char (Char.ofNat first.toNat) 0
  else
    match lead? first with
    | none => .bad first []
    | some l => continuation first l.bits [] l.low l.high l.further bytes

/-- How many bytes of a piece follow its first one. -/
def Piece.following : Piece → Nat
  | char _ n => n
  | bad _ bytes => bytes.length

/-- The pieces of a list of bytes, behind those already cut off, which are listed last first. -/
def piecesFrom (done : List Piece) : List UInt8 → List Piece
  | [] => done.reverse
  | b :: bs =>
    let piece := pieceAt b bs
    have : (bs.drop piece.following).length < (b :: bs).length := by
      rw [List.length_drop, List.length_cons]; omega
    piecesFrom (piece :: done) (bs.drop piece.following)
termination_by bytes => bytes.length

/-- A list of bytes cut into pieces. -/
def pieces (bytes : List UInt8) : List Piece :=
  piecesFrom [] bytes

/-- The character that stands for a piece in a lossy reading. -/
def Piece.lossy : Piece → Char
  | char c _ => c
  | bad .. => '\ufffd'

/-- The first ill-formed sequence of some bytes. -/
structure Malformed where
  /-- The characters before it. -/
  before : List Char
  /-- Its bytes. -/
  bytes : List UInt8
  /-- The characters of all bytes, with a replacement character for each ill-formed sequence. -/
  lossy : List Char

/-- The first ill-formed sequence of a list of pieces, behind `before`, listed last first. -/
def malformedFrom? (before : List Char) : List Piece → Option (List Char × List UInt8)
  | [] => none
  | .char c _ :: rest => malformedFrom? (c :: before) rest
  | .bad first following :: _ => some (before.reverse, first :: following)

/-- The text of some bytes, or their first ill-formed sequence. -/
def read (bytes : List UInt8) : Except Malformed String :=
  let cut := pieces bytes
  let lossy := cut.map Piece.lossy
  match malformedFrom? [] cut with
  | none => .ok (String.ofList lossy)
  | some (before, bad) => .error ⟨before, bad, lossy⟩

end ExprForest.Text.Utf8

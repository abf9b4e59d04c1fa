namespace ExprForest.Text

/-!
# Blank text

* `isWhiteSpace` — the characters with the property White_Space;
* `isBlank` — a text of such characters only.
-/

/-- The characters with the property White_Space, as ranges of code points. -/
def whiteSpaceRanges : List (Nat × Nat) :=
  [(0x09, 0x0d), (0x20, 0x20), (0x85, 0x85), (0xa0, 0xa0), (0x1680, 0x1680), (0x2000, 0x200a),
   (0x2028, 0x2029), (0x202f, 0x202f), (0x205f, 0x205f), (0x3000, 0x3000)]

/-- Whether a character has the property White_Space. -/
def isWhiteSpace (c : Char) : Bool :=
  whiteSpaceRanges.any fun (first, last) => first ≤ c.toNat && c.toNat ≤ last

/-- Whether a text holds white space only. -/
def isBlank (text : String) : Bool :=
  text.toList.all isWhiteSpace

end ExprForest.Text

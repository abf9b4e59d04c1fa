import ExprForest.Proofs.Json.Spelling
import ExprForest.Text.Quoted

namespace ExprForest

/-!
# Strings are read back

What `Text.jsonQuoted` writes is read as the same string, whatever its characters.

* `Text.toList_jsonQuoted` — a quoted text, character by character;
* `Text.spellsOne_jsonEscaped`, `Text.spells_jsonEscaped` — what is written for a character spells it;
* `Json.Literal.yields_read` — so a written string is read up to its closing quote.
-/

open Json.Grammar (SpellsOne Spells)

/-! ### Writing -/

namespace Text

theorem toList_foldl_push (cs : List Char) (out : String) :
    (cs.foldl String.push out).toList = out.toList ++ cs := by
  induction cs generalizing out with
  | nil => simp
  | cons c cs ih => rw [List.foldl_cons, ih, String.toList_push, List.append_assoc]; rfl

/-- A quoted text is each of its characters, escaped, between two quotes. -/
theorem toList_jsonQuoted (s : String) :
    (jsonQuoted s).toList = '"' :: (s.toList.flatMap jsonEscaped ++ ['"']) := by
  have hfold : ∀ (cs : List Char) (out : String),
      (cs.foldl (fun out c => (jsonEscaped c).foldl String.push out) out).toList =
        out.toList ++ cs.flatMap jsonEscaped := by
    intro cs
    induction cs with
    | nil => simp
    | cons c cs ih =>
      intro out
      rw [List.foldl_cons, ih, toList_foldl_push, List.flatMap_cons, List.append_assoc]
  rw [jsonQuoted, String.toList_append, hfold]
  rfl

/-- A number below 16 has one hexadecimal digit. -/
theorem hexDigits_of_lt : ∀ n < 16, hexDigits n = [Nat.digitChar n] ∧
    Json.Literal.hexValue? (Nat.digitChar n) = some n := by
  decide

/-- What is written for a character spells it. -/
theorem spellsOne_jsonEscaped (c : Char) : SpellsOne (jsonEscaped c) c := by
  unfold jsonEscaped
  split
  · exact .letter rfl
  · exact .letter rfl
  · exact .letter rfl
  · exact .letter rfl
  · exact .letter rfl
  · exact .letter rfl
  · exact .letter rfl
  · rename_i hquote hbackslash _ _ _ _ _
    split
    · rename_i hcontrol
      obtain ⟨hhigh, hhigh'⟩ := hexDigits_of_lt (c.toNat / 16) (by omega)
      obtain ⟨hlow, hlow'⟩ := hexDigits_of_lt (c.toNat % 16) (Nat.mod_lt _ (by decide))
      have hzero : Json.Literal.hexValue? '0' = some 0 := rfl
      have hdigits : Json.Literal.hexFour? ['0', '0', Nat.digitChar (c.toNat / 16),
          Nat.digitChar (c.toNat % 16)] = some c.toNat := by
        have hsum : 16 * (c.toNat / 16) + c.toNat % 16 = c.toNat := Nat.div_add_mod _ _
        simp [Json.Literal.hexFour?, hzero, hhigh', hlow', hsum]
      have hunit := SpellsOne.unit hdigits (by simp [Json.Literal.isLeading]; omega)
        (by simp [Json.Literal.isTrailing]; omega)
      rw [Char.ofNat_toNat] at hunit
      rw [hhigh, hlow]
      exact hunit
    · rename_i hcontrol
      exact .plain hquote hbackslash (Nat.le_of_not_lt hcontrol)

/-- What is written for a row of characters spells it. -/
theorem spells_jsonEscaped (cs : List Char) : Spells (cs.flatMap jsonEscaped) cs := by
  induction cs with
  | nil => exact .nil
  | cons c cs ih => exact .cons (spellsOne_jsonEscaped c) ih

end Text

/-! ### Reading -/

/-- A written string is read up to its closing quote. -/
theorem Json.Literal.yields_read (s : String) (rest : List Char) :
    Json.Reader.Yields Json.Literal.read (s.toList.flatMap Text.jsonEscaped ++ '"' :: rest)
      (some (s, rest)) := by
  have h := Json.Literal.yields_readFrom_of_spells (Text.spells_jsonEscaped s.toList) "" rest
  rwa [String.ofList_toList, String.empty_append] at h

end ExprForest

import ExprForest.Token.Nesting
import Mathlib

namespace ExprForest

/-!
# Levels of parentheses

* `Lexeme.peak_append`, `Lexeme.peak_closers` — the peak over lists put together, and over closing
  parentheses;
* `Lexeme.Balanced` — lexemes that close what they open, and no more;
* `Token.firstDeeper?_eq_none_iff` — no parenthesis opens a level too many exactly if the peak keeps to
  the limit.
-/

namespace Lexeme

variable {limit depth : Nat} {l : Lexeme} {ls ms : List Lexeme}

/-- The peak is not below the depth before the list. -/
theorem le_peak (depth : Nat) (ls : List Lexeme) : depth ≤ peak depth ls := by
  cases ls with
  | nil => exact Nat.le_refl _
  | cons l ls => exact Nat.le_max_left _ _

/-- The peak over two lists in succession. -/
theorem peak_append (depth : Nat) (ls ms : List Lexeme) :
    peak depth (ls ++ ms) = max (peak depth ls) (peak (ls.foldl depthAfter depth) ms) := by
  induction ls generalizing depth with
  | nil => exact (Nat.max_eq_right (le_peak depth ms)).symm
  | cons l ls ih =>
    rw [List.cons_append, peak, peak, List.foldl_cons, ih]
    exact (Nat.max_assoc _ _ _).symm

/-- The depth behind a list is not above its peak. -/
theorem foldl_depthAfter_le_peak (depth : Nat) (ls : List Lexeme) :
    ls.foldl depthAfter depth ≤ peak depth ls := by
  have h := peak_append depth ls []
  rw [List.append_nil] at h
  rw [h]
  exact Nat.le_max_right _ _

/-- No more levels open than there are lexemes. -/
theorem peak_le (depth : Nat) (ls : List Lexeme) : peak depth ls ≤ depth + ls.length := by
  induction ls generalizing depth with
  | nil => exact Nat.le_refl _
  | cons l ls ih =>
    have hdepth : l.depthAfter depth ≤ depth + 1 := by
      unfold depthAfter
      split <;> omega
    have hrest := ih (l.depthAfter depth)
    rw [peak, List.length_cons]
    omega

/-- Closing parentheses do not raise the peak. -/
theorem peak_closers (depth n : Nat) : peak depth (List.replicate n closeParen) = depth := by
  induction n generalizing depth with
  | zero => rfl
  | succ n ih =>
    rw [List.replicate_succ, peak, ih]
    exact Nat.max_eq_left (Nat.sub_le depth 1)

/-- Only an opening parenthesis opens a level. -/
theorem depthAfter_le (h : l ≠ openParen) : l.depthAfter depth ≤ depth := by
  unfold depthAfter
  split
  · contradiction
  · exact Nat.sub_le depth 1
  · exact Nat.le_refl depth

/-! ### Balanced lexemes -/

/-- Whether as many parentheses are open behind some lexemes as before them. -/
def Balanced (ls : List Lexeme) : Prop :=
  ∀ depth, ls.foldl depthAfter depth = depth

theorem balanced_nil : Balanced [] := by
  intro depth
  rfl

/-- A lexeme that is no parenthesis. -/
theorem balanced_singleton (hopen : l ≠ openParen) (hclose : l ≠ closeParen) : Balanced [l] := by
  intro depth
  show l.depthAfter depth = depth
  unfold depthAfter
  cases l <;> first | rfl | contradiction

theorem Balanced.append (h : Balanced ls) (h' : Balanced ms) : Balanced (ls ++ ms) := by
  intro depth
  rw [List.foldl_append, h depth, h' depth]

/-- Parentheses around balanced lexemes. -/
theorem Balanced.enclosed (h : Balanced ls) : Balanced (openParen :: (ls ++ [closeParen])) := by
  intro depth
  have hinside : ls.foldl depthAfter (depth + 1) = depth + 1 := h (depth + 1)
  show (ls ++ [closeParen]).foldl depthAfter (depth + 1) = depth
  rw [List.foldl_append, hinside]
  rfl

end Lexeme

namespace Token

open Lexeme (peak)

/-- No parenthesis opens a level beyond the limit exactly if the peak keeps to it. -/
theorem firstDeeper?_eq_none_iff {limit depth : Nat} (hdepth : depth ≤ limit) (ts : List Token) :
    firstDeeper? limit depth ts = none ↔ peak depth (ts.map Token.lexeme) ≤ limit := by
  induction ts generalizing depth with
  | nil => exact iff_of_true rfl hdepth
  | cons t ts ih =>
    have hpeak : peak depth ((t :: ts).map Token.lexeme) ≤ limit ↔
        peak (t.lexeme.depthAfter depth) (ts.map Token.lexeme) ≤ limit := by
      rw [List.map_cons, peak, Nat.max_le]
      exact and_iff_right hdepth
    rw [hpeak, firstDeeper?]
    by_cases hdeeper : t.lexeme = .openParen ∧ limit < t.lexeme.depthAfter depth
    · rw [if_pos hdeeper]
      refine iff_of_false nofun fun hle => ?_
      have := Lexeme.le_peak (t.lexeme.depthAfter depth) (ts.map Token.lexeme)
      omega
    · rw [if_neg hdeeper]
      -- only an opening parenthesis goes beyond the limit
      refine ih ?_
      by_cases hopen : t.lexeme = .openParen
      · exact Nat.le_of_not_lt fun hlt => hdeeper ⟨hopen, hlt⟩
      · exact Nat.le_trans (Lexeme.depthAfter_le hopen) hdepth

end Token

end ExprForest

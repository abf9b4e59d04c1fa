import ExprForest.Proofs.Lexical.Values
import ExprForest.Proofs.Lexical.Spelling
import ExprForest.Proofs.Statement.Parsing
import ExprForest.Tree.Walk

namespace ExprForest

/-!
# Trees in reading order

A tree read from left to right gives back its line without the parentheses that only group.

* `Tree.flatten` — the operands and operators of a tree in reading order;
* `Lexeme.symbols` — the operands and operators that some lexemes write, in their order;
* `Statement.Derives.flatten_eq`, `Statement.Derives.leaves_eq` — in every category the tree has the
  symbols of its lexemes, and a leaf for each number and each name;
* `Parser.flatten_eq_symbols` — hence a line that is taken loses, doubles and moves nothing.
-/

/-- An operand or an operator. -/
inductive Symbol where
  | number (value : Float)
  | identifier (name : String)
  | operator (op : Operator)

/-- The operands and operators of a tree in reading order: left side, operator, right side. -/
def Tree.flatten : Tree → List Symbol
  | number value => [.number value]
  | identifier name => [.identifier name]
  | node op left right => left.flatten ++ .operator op :: right.flatten

/-! ### What lexemes write -/

namespace Lexeme

/-- Whether a lexeme is a name. -/
def isName : Lexeme → Bool
  | name _ => true
  | _ => false

/-- Whether a lexeme is an operand: a number or a name. -/
def isOperand : Lexeme → Bool
  | number _ => true
  | name _ => true
  | _ => false

/-- The symbol that a lexeme writes; `afterName` tells whether it stands directly behind a name.  There
    an opening parenthesis writes the operator of a call.  Other parentheses write nothing. -/
def symbol? (afterName : Bool) : Lexeme → Option Symbol
  | number text => (Decimal.read? text).map .number
  | name text => some (.identifier (String.ofList text))
  | equals => some (.operator .assign)
  | additive .plus => some (.operator .add)
  | additive .minus => some (.operator .subtract)
  | multiplicative .times => some (.operator .multiply)
  | multiplicative .over => some (.operator .divide)
  | caret => some (.operator .exponent)
  | comma => some (.operator .comma)
  | openParen => if afterName then some (.operator .call) else none
  | closeParen => none

/-- The symbols that some lexemes write, in their order, if `afterName` tells whether a name stands
    directly before them. -/
def symbols (afterName : Bool) : List Lexeme → List Symbol
  | [] => []
  | l :: ls => (l.symbol? afterName).toList ++ symbols l.isName ls

variable {l : Lexeme} {op : Operator} {b : Bool}

/-- What an operator writes does not depend on what stands before it. -/
theorem symbols_append_operator (hop : ∀ b, l.symbol? b = some (.operator op))
    (hname : l.isName = false) (b : Bool) (ls ms : List Lexeme) :
    symbols b (ls ++ l :: ms) = symbols b ls ++ .operator op :: symbols false ms := by
  induction ls generalizing b with
  | nil =>
    show (l.symbol? b).toList ++ symbols l.isName ms = _
    rw [hop b, hname]
    rfl
  | cons k ls ih =>
    show (k.symbol? b).toList ++ symbols k.isName (ls ++ l :: ms) = _
    rw [ih, ← List.append_assoc]
    rfl

/-- A closing parenthesis writes nothing. -/
theorem symbols_append_closeParen (b : Bool) (ls : List Lexeme) :
    symbols b (ls ++ [closeParen]) = symbols b ls := by
  induction ls generalizing b with
  | nil => rfl
  | cons k ls ih =>
    show (k.symbol? b).toList ++ symbols k.isName (ls ++ [closeParen]) = _
    rw [ih]
    rfl

/-- A sign between two lists of lexemes is no operand. -/
theorem countP_append_sign (hl : l.isOperand = false) (ls ms : List Lexeme) :
    (ls ++ l :: ms).countP isOperand = ls.countP isOperand + ms.countP isOperand := by
  rw [List.countP_append, List.countP_cons_of_neg (by simp [hl])]

end Lexeme

/-! ### Derivations -/

namespace Statement.Derives

variable {c : Category} {ls : List Lexeme} {t : Tree}

/-- **Reading order.**  The tree of some lexemes has the symbols that they write, in their order. -/
theorem flatten_eq (h : Derives c ls t) : t.flatten = Lexeme.symbols false ls := by
  -- on the derivation; no lexeme of a category stands directly behind a name but its own
  induction h with
  | number hvalue =>
    simp [Tree.flatten, Lexeme.symbols, Lexeme.symbol?, hvalue]
  | name => rfl
  | @group ls t _ ih =>
    show _ = Lexeme.symbols false (ls ++ [.closeParen])
    rw [Lexeme.symbols_append_closeParen, ih]
  | @call text ls t _ ih =>
    show Symbol.identifier _ :: .operator .call :: t.flatten =
      Symbol.identifier _ :: .operator .call :: Lexeme.symbols false (ls ++ [.closeParen])
    rw [Lexeme.symbols_append_closeParen, ih]
  | comma _ _ ihl ihr =>
    rw [Tree.flatten, ihl, ihr, Lexeme.symbols_append_operator (fun _ => rfl) rfl]
  | exponent _ _ ihl ihr =>
    rw [Tree.flatten, ihl, ihr, Lexeme.symbols_append_operator (fun _ => rfl) rfl]
  | equals _ _ ihl ihr =>
    rw [Tree.flatten, ihl, ihr, Lexeme.symbols_append_operator (fun _ => rfl) rfl]
  | @multiplicative _ _ _ _ sign _ _ ihl ihr =>
    have hsign : ∀ b, (Lexeme.multiplicative sign).symbol? b =
        some (.operator (multiplicativeOperator sign)) := by
      cases sign <;> exact fun _ => rfl
    rw [Tree.flatten, ihl, ihr, Lexeme.symbols_append_operator hsign rfl]
  | @additive _ _ _ _ sign _ _ ihl ihr =>
    have hsign : ∀ b, (Lexeme.additive sign).symbol? b =
        some (.operator (additiveOperator sign)) := by
      cases sign <;> exact fun _ => rfl
    rw [Tree.flatten, ihl, ihr, Lexeme.symbols_append_operator hsign rfl]
  | argument _ ih => exact ih
  | base _ ih => exact ih
  | factor _ ih => exact ih
  | term _ ih => exact ih
  | value _ ih => exact ih

/-- The tree of some lexemes has a leaf for each operand among them. -/
theorem leaves_eq (h : Derives c ls t) : t.leaves = ls.countP Lexeme.isOperand := by
  induction h with
  | number _ => rfl
  | name => rfl
  | group _ ih =>
    rw [ih, List.cons_append, List.countP_cons, Lexeme.countP_append_sign rfl]
    rfl
  | call _ ih =>
    rw [Tree.leaves, ih, List.cons_append, List.countP_cons, List.cons_append, List.countP_cons,
      Lexeme.countP_append_sign rfl]
    exact Nat.add_comm _ _
  | comma _ _ ihl ihr => rw [Tree.leaves, ihl, ihr, Lexeme.countP_append_sign rfl]
  | exponent _ _ ihl ihr => rw [Tree.leaves, ihl, ihr, Lexeme.countP_append_sign rfl]
  | equals _ _ ihl ihr => rw [Tree.leaves, ihl, ihr, Lexeme.countP_append_sign rfl]
  | multiplicative _ _ ihl ihr => rw [Tree.leaves, ihl, ihr, Lexeme.countP_append_sign rfl]
  | additive _ _ ihl ihr => rw [Tree.leaves, ihl, ihr, Lexeme.countP_append_sign rfl]
  | argument _ ih => exact ih
  | base _ ih => exact ih
  | factor _ ih => exact ih
  | term _ ih => exact ih
  | value _ ih => exact ih

end Statement.Derives

/-! ### Lines -/

namespace Parser

variable {p : Parser .standard} {line : String} {log : Log} {t : Tree}

/-- **Nothing is lost, doubled or moved.**  The tree of a line that the parser takes, read from left to
    right, gives the operands and operators of the line in their order, with the operator of a call for
    each parenthesis behind a name.  It has one leaf for each number and each name, and one node fewer
    than twice their number. -/
theorem flatten_eq_symbols (h : (p.statement line log).1 = .success t) :
    ∃ ts, Token.Lexes line ts ∧
      t.flatten = Lexeme.symbols false (ts.map Token.lexeme) ∧
      t.leaves = (ts.map Token.lexeme).countP Lexeme.isOperand ∧
      t.countNodes = 2 * (ts.map Token.lexeme).countP Lexeme.isOperand - 1 := by
  obtain ⟨ts, hlex, -, hderives⟩ := Statement.outcome_eq_ok_iff.mp (statement_eq_success_iff.mp h)
  have hleaves := hderives.leaves_eq
  refine ⟨ts, hlex, hderives.flatten_eq, hleaves, ?_⟩
  have hsize := t.size_add_one
  rw [Tree.countNodes_eq_size]
  omega

/-- In `f((x), y) = z` the first parenthesis is that of a call and the second one only groups. -/
theorem flatten_eq_symbols_call_group :
    ∃ ts, Token.Lexes "f((x), y) = z" ts ∧
      [.identifier "f", .operator .call, .identifier "x", .operator .comma, .identifier "y",
        .operator .assign, .identifier "z"] = Lexeme.symbols false (ts.map Token.lexeme) ∧
      4 = (ts.map Token.lexeme).countP Lexeme.isOperand ∧
      7 = 2 * (ts.map Token.lexeme).countP Lexeme.isOperand - 1 := by
  have hsuccess : (Parser.standard.statement "f((x), y) = z" .empty).1 = .success
      (.node .assign
        (.node .call (.identifier "f") (.node .comma (.identifier "x") (.identifier "y")))
        (.identifier "z")) := by
    cbv
  have hnodes : (Tree.node .assign
      (.node .call (.identifier "f") (.node .comma (.identifier "x") (.identifier "y")))
      (.identifier "z")).countNodes = 7 := by
    rw [Tree.countNodes_eq_size]
    rfl
  have h := flatten_eq_symbols hsuccess
  rw [hnodes] at h
  exact h

end Parser

end ExprForest

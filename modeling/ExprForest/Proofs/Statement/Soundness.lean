import ExprForest.Proofs.Statement.Runs
import ExprForest.Statement.Derivation

namespace ExprForest.Statement

/-!
# The reader invents no parse

What is pending in the reader stands for the lexemes read so far.

* `Waiting`, `Level.Reads`, `FramesRead`, `State.Reads` — which lexemes the parts of a state stand for;
* `Level.derives_close` — closing a level derives an expression from its lexemes;
* `State.Reads.step`, `State.Reads.reaches` — one lexeme and a whole run keep this up;
* `State.Reads.finish` — hence the tree of a line is derived from its lexemes.
-/

variable {level : Level} {ls ms : List Lexeme} {t : Tree} {ts : List Tree}

/-! ### Pending operands -/

/-- Operands of a category that wait for their right side, the latest first, and their lexemes, each
    operand with its separator. -/
inductive Waiting (separator : Lexeme) (c : Category) : List Tree → List Lexeme → Prop where
  | nil :
      Waiting separator c [] []
  | snoc {ts : List Tree} {t : Tree} {ls ms : List Lexeme} :
      Waiting separator c ts ls → Derives c ms t →
      Waiting separator c (t :: ts) (ls ++ (ms ++ [separator]))

/-- Folding a chain to the right derives a category that takes such operands on the left. -/
theorem Waiting.derives_foldl {separator : Lexeme} {c d : Category} {op : Operator}
    (hcons : ∀ {ls ms l r}, Derives c ls l → Derives d ms r →
      Derives d (ls ++ separator :: ms) (.node op l r))
    (hwaiting : Waiting separator c ts ls) (ht : Derives d ms t) :
    Derives d (ls ++ ms) (ts.foldl (fun right left => .node op left right) t) := by
  induction hwaiting generalizing ms t with
  | nil => exact ht
  | snoc _ hl ih =>
    have h := ih (hcons hl ht)
    simpa using h

/-- A left operand with the sign behind it, or none, and the lexemes of both. -/
inductive Pending {Sign : Type} (lexeme : Sign → Lexeme) (c : Category) :
    Option (Tree × Sign) → List Lexeme → Prop where
  | none :
      Pending lexeme c none []
  | some {t : Tree} {sign : Sign} {ls : List Lexeme} :
      Derives c ls t →
      Pending lexeme c (some (t, sign)) (ls ++ [lexeme sign])

/-- The lexemes that a level stands for: its `=` chain, its sum, its product and its `^` chain. -/
inductive Level.Reads : Level → List Lexeme → Prop where
  | mk {level : Level} {as ss ps bs : List Lexeme} :
      Waiting .equals .sum level.assigned as → Pending .additive .sum level.sum ss →
      Pending .multiplicative .product level.product ps → Waiting .caret .primary level.bases bs →
      Level.Reads level (as ++ (ss ++ (ps ++ bs)))

namespace Level

theorem reads_empty : empty.Reads [] :=
  @Reads.mk empty [] [] [] [] .nil .none .none .nil

/-! ### Operands complete a level -/

/-- The power that ends with an operand. -/
theorem derives_power {bs : List Lexeme} (hbs : Waiting .caret .primary level.bases bs)
    (ht : Derives .primary ms t) : Derives .power (bs ++ ms) (level.power t) :=
  hbs.derives_foldl .exponent (.base ht)

/-- The product that ends with an operand. -/
theorem derives_productOf {ps bs : List Lexeme}
    (hps : Pending .multiplicative .product level.product ps)
    (hbs : Waiting .caret .primary level.bases bs) (ht : Derives .primary ms t) :
    Derives .product (ps ++ (bs ++ ms)) (level.productOf t) := by
  have hpower := derives_power hbs ht
  unfold productOf
  generalize level.product = product at hps
  cases hps with
  | none => exact .factor hpower
  | some hl => simpa using hl.multiplicative hpower

/-- The sum that ends with an operand. -/
theorem derives_sumOf {ss ps bs : List Lexeme} (hss : Pending .additive .sum level.sum ss)
    (hps : Pending .multiplicative .product level.product ps)
    (hbs : Waiting .caret .primary level.bases bs) (ht : Derives .primary ms t) :
    Derives .sum (ss ++ (ps ++ (bs ++ ms))) (level.sumOf t) := by
  have hproduct := derives_productOf hps hbs ht
  unfold sumOf
  generalize level.sum = sum at hss
  cases hss with
  | none => exact .term hproduct
  | some hl => simpa using hl.additive hproduct

/-- **Closing a level.**  The expression that ends with an operand is derived from the lexemes of the
    level and those of the operand. -/
theorem derives_close (h : level.Reads ls) (ht : Derives .primary ms t) :
    Derives .expression (ls ++ ms) (level.close t) := by
  cases h with
  | mk has hss hps hbs =>
    have h := has.derives_foldl .equals (.value (derives_sumOf hss hps hbs ht))
    simpa [close] using h

/-! ### Operators extend a level -/

theorem Reads.afterCaret (h : level.Reads ls) (ht : Derives .primary ms t) :
    (level.afterCaret t).Reads (ls ++ (ms ++ [.caret])) := by
  cases h with
  | mk has hss hps hbs =>
    have h : (level.afterCaret t).Reads _ := .mk has hss hps (hbs.snoc ht)
    simpa using h

theorem Reads.afterMultiplicative (h : level.Reads ls) (ht : Derives .primary ms t)
    (sign : Multiplicative) :
    (level.afterMultiplicative t sign).Reads (ls ++ (ms ++ [.multiplicative sign])) := by
  cases h with
  | mk has hss hps hbs =>
    have h : (level.afterMultiplicative t sign).Reads _ :=
      .mk has hss (.some (derives_productOf hps hbs ht)) .nil
    simpa using h

theorem Reads.afterAdditive (h : level.Reads ls) (ht : Derives .primary ms t) (sign : Additive) :
    (level.afterAdditive t sign).Reads (ls ++ (ms ++ [.additive sign])) := by
  cases h with
  | mk has hss hps hbs =>
    have h : (level.afterAdditive t sign).Reads _ :=
      .mk has (.some (derives_sumOf hss hps hbs ht)) .none .nil
    simpa using h

theorem Reads.afterEquals (h : level.Reads ls) (ht : Derives .primary ms t) :
    (level.afterEquals t).Reads (ls ++ (ms ++ [.equals])) := by
  cases h with
  | mk has hss hps hbs =>
    have h : (level.afterEquals t).Reads _ :=
      .mk (has.snoc (derives_sumOf hss hps hbs ht)) .none .none .nil
    simpa using h

end Level

/-! ### Open parentheses -/

/-- The arguments of a call that were read, each with the comma behind it. -/
inductive ArgumentsRead : Option Tree → List Lexeme → Prop where
  | none :
      ArgumentsRead none []
  | some {t : Tree} {ls : List Lexeme} :
      Derives .arguments ls t →
      ArgumentsRead (some t) (ls ++ [.comma])

/-- One more argument. -/
theorem ArgumentsRead.derives_chain {arguments : Option Tree} (h : ArgumentsRead arguments ls)
    (ht : Derives .expression ms t) : Derives .arguments (ls ++ ms) (chain arguments t) := by
  cases h with
  | none => exact .argument ht
  | some hl => simpa [chain] using hl.comma ht

/-- The lexemes that open parentheses stand for, with what is pending around each of them. -/
inductive FramesRead : List Frame → List Lexeme → Prop where
  | nil :
      FramesRead [] []
  | group {frames : List Frame} {outer : Level} {ls ms : List Lexeme} :
      FramesRead frames ls → outer.Reads ms →
      FramesRead (.group outer :: frames) (ls ++ (ms ++ [.openParen]))
  | call {frames : List Frame} {outer : Level} {text : List Char} {arguments : Option Tree}
      {ls ms as : List Lexeme} :
      FramesRead frames ls → outer.Reads ms → ArgumentsRead arguments as →
      FramesRead (.call (String.ofList text) arguments outer :: frames)
        (ls ++ (ms ++ .name text :: .openParen :: as))

/-- The lexemes that a context stands for. -/
inductive Context.Reads : Context → List Lexeme → Prop where
  | mk {level : Level} {frames : List Frame} {ls ms : List Lexeme} :
      FramesRead frames ls → level.Reads ms →
      Context.Reads ⟨level, frames⟩ (ls ++ ms)

/-- The lexemes that a state stands for. -/
inductive State.Reads : State → List Lexeme → Prop where
  | operand {context : Context} {ls : List Lexeme} :
      context.Reads ls →
      State.Reads (.operand context) ls
  | name {context : Context} {text : List Char} {ls : List Lexeme} :
      context.Reads ls →
      State.Reads (.name context (String.ofList text)) (ls ++ [.name text])
  | complete {context : Context} {t : Tree} {ls ms : List Lexeme} :
      context.Reads ls → Derives .primary ms t →
      State.Reads (.complete context t) (ls ++ ms)

/-- Nothing is read at the start of a line. -/
theorem State.reads_initial : State.initial.Reads [] :=
  .operand (@Context.Reads.mk .empty [] [] [] .nil Level.reads_empty)

/-! ### Steps -/

variable {context : Context} {s s' : State} {l : Lexeme}

theorem State.Reads.of_eq (h : s.Reads ls) (heq : ls = ms) : s.Reads ms :=
  heq ▸ h

/-- A lexeme behind a complete operand. -/
theorem Context.Reads.resume (h : context.Reads ls) (ht : Derives .primary ms t)
    (hstep : context.resume t l = .ok s') : s'.Reads (ls ++ (ms ++ [l])) := by
  cases h with
  | mk hframes hlevel =>
    cases Context.resumes hstep with
    | equals => exact .of_eq (.operand (.mk hframes (hlevel.afterEquals ht))) (by simp)
    | @additive _ _ sign => exact .of_eq (.operand (.mk hframes (hlevel.afterAdditive ht sign))) (by simp)
    | @multiplicative _ _ sign =>
      exact .of_eq (.operand (.mk hframes (hlevel.afterMultiplicative ht sign))) (by simp)
    | caret => exact .of_eq (.operand (.mk hframes (hlevel.afterCaret ht))) (by simp)
    | closeGroup =>
      -- the level inside the parentheses is complete
      have hclose := Level.derives_close hlevel ht
      cases hframes with
      | group hframes houter =>
        exact .of_eq (.complete (.mk hframes houter) (.group hclose)) (by simp)
    | closeCall =>
      have hclose := Level.derives_close hlevel ht
      cases hframes with
      | call hframes houter harguments =>
        exact .of_eq
          (.complete (.mk hframes houter) (.call (harguments.derives_chain hclose)))
          (by simp)
    | comma =>
      -- the argument before the comma is complete
      have hclose := Level.derives_close hlevel ht
      cases hframes with
      | call hframes houter harguments =>
        exact .of_eq
          (.operand (.mk (.call hframes houter (.some (harguments.derives_chain hclose)))
            Level.reads_empty))
          (by simp)

/-- **One step.**  A lexeme is added to those that the state stands for. -/
theorem State.Reads.step (h : s.Reads ls) (hstep : s.step l = .ok s') : s'.Reads (ls ++ [l]) := by
  cases h with
  | operand h =>
    cases l with
    | number text =>
      rw [State.step] at hstep
      split at hstep
      · rename_i value hvalue
        obtain rfl := Except.ok.inj hstep
        exact .complete h (.number hvalue)
      · cases hstep
    | name text =>
      obtain rfl := Except.ok.inj hstep
      exact .name h
    | openParen =>
      obtain rfl := Except.ok.inj hstep
      cases h with
      | mk hframes hlevel =>
        exact .of_eq (.operand (.mk (.group hframes hlevel) Level.reads_empty)) (by simp)
    | _ => cases hstep
  | @name context text ls h =>
    -- a parenthesis makes the name a callee; anything else makes it an operand
    by_cases hl : l = .openParen
    · subst hl
      obtain rfl := Except.ok.inj hstep
      cases h with
      | mk hframes hlevel =>
        exact .of_eq
          (.operand (.mk (.call hframes hlevel .none) Level.reads_empty))
          (by simp)
    · rw [State.step_name hl] at hstep
      simpa using h.resume .name hstep
  | complete h ht =>
    rw [State.step] at hstep
    simpa using h.resume ht hstep

/-- **A run.**  The lexemes of the run are added. -/
theorem State.Reads.reaches (h : s.Reads ls) (hreach : s.Reaches ms s') : s'.Reads (ls ++ ms) := by
  induction hreach generalizing ls with
  | refl => rwa [List.append_nil]
  | step hstep _ ih =>
    have h := ih (h.step hstep)
    rwa [List.append_assoc] at h

/-- The end of the line behind a complete operand. -/
theorem Context.Reads.finish {u : Tree} (h : context.Reads ls) (hu : Derives .primary ms u)
    (hfinish : context.finish u = .ok t) : Derives .expression (ls ++ ms) t := by
  obtain ⟨hframes, hlevel⟩ := h
  cases hframes with
  | nil =>
    obtain rfl := Except.ok.inj hfinish
    exact Level.derives_close hlevel hu
  | group _ _ => cases hfinish
  | call _ _ _ => cases hfinish

/-- Where the line may end, its tree is derived from the lexemes read. -/
theorem State.Reads.finish (h : s.Reads ls) (hfinish : s.finish = .ok t) :
    Derives .expression ls t := by
  cases h with
  | operand _ => cases hfinish
  | name h => exact h.finish .name hfinish
  | complete h ht => exact h.finish ht hfinish

/-- The tree of a line is derived from its lexemes. -/
theorem derives_of_read {tokens : List Token} (h : read tokens = .ok t) :
    Derives .expression (tokens.map Token.lexeme) t := by
  obtain ⟨s, hreach, hfinish⟩ := run_eq_ok_iff.mp h
  exact (State.reads_initial.reaches hreach).finish hfinish

end ExprForest.Statement

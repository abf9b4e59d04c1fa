import ExprForest.Proofs.Statement.Soundness

namespace ExprForest.Statement

/-!
# The reader loses no parse

* `State.Rests` — states with a complete operand;
* `Completes` — what reading the lexemes of a category does to the reader, one clause for each
  category;
* `Derives.completes` — by induction on the derivation, whatever a category derives is read so;
* `read_eq_ok_iff` — a token list is read to a tree exactly if its lexemes derive it;
* `Derives.unique` — lexemes derive one tree at most.
-/

variable {c : Category} {s : State} {context : Context} {l : Lexeme} {ls : List Lexeme} {t u : Tree}

/-! ### Complete operands -/

/-- The states behind a complete operand `t`.  A name is one before it turns out to be a callee. -/
inductive State.Rests : State → Context → Tree → Prop where
  | name {context : Context} {text : String} :
      State.Rests (.name context text) context (.identifier text)
  | complete {context : Context} {t : Tree} :
      State.Rests (.complete context t) context t

/-- What follows a complete operand, unless it makes a name a callee. -/
theorem State.Rests.step (h : s.Rests context t) (hl : l ≠ .openParen) :
    s.step l = context.resume t l := by
  cases h with
  | name => exact State.step_name hl
  | complete => rfl

theorem State.Rests.finish (h : s.Rests context t) : s.finish = context.finish t := by
  cases h <;> rfl

/-! ### Categories -/

/-- What reading the lexemes of a category does to a reader that needs an operand: it comes to rest at
    the last primary, and what is pending then completes to the tree of the whole.  Only the parts of
    the level that the category may use have changed. -/
def Completes : Category → List Lexeme → Tree → Prop
  | .primary, ls, t => ∀ context, ∃ s, (State.operand context).Reaches ls s ∧ s.Rests context t
  | .power, ls, t => ∀ as sum product bs frames, ∃ s bs' u,
      (State.operand ⟨⟨as, sum, product, bs⟩, frames⟩).Reaches ls s ∧
        s.Rests ⟨⟨as, sum, product, bs'⟩, frames⟩ u ∧
        (⟨as, sum, product, bs'⟩ : Level).power u = (⟨as, sum, product, bs⟩ : Level).power t
  | .product, ls, t => ∀ as sum frames, ∃ s product bs u,
      (State.operand ⟨⟨as, sum, none, []⟩, frames⟩).Reaches ls s ∧
        s.Rests ⟨⟨as, sum, product, bs⟩, frames⟩ u ∧
        (⟨as, sum, product, bs⟩ : Level).productOf u = t
  | .sum, ls, t => ∀ as frames, ∃ s sum product bs u,
      (State.operand ⟨⟨as, none, none, []⟩, frames⟩).Reaches ls s ∧
        s.Rests ⟨⟨as, sum, product, bs⟩, frames⟩ u ∧
        (⟨as, sum, product, bs⟩ : Level).sumOf u = t
  | .expression, ls, t => ∀ as frames, ∃ s level u,
      (State.operand ⟨⟨as, none, none, []⟩, frames⟩).Reaches ls s ∧
        s.Rests ⟨level, frames⟩ u ∧
        level.close u = (⟨as, none, none, []⟩ : Level).close t
  | .arguments, ls, t => ∀ callee outer frames, ∃ s level arguments u,
      (State.operand ⟨.empty, .call callee none outer :: frames⟩).Reaches ls s ∧
        s.Rests ⟨level, .call callee arguments outer :: frames⟩ u ∧
        chain arguments (level.close u) = t

/-- A stretch that comes to rest, the lexeme behind it, and what follows. -/
theorem State.Rests.continue {s₀ s' s'' : State} {ms : List Lexeme} (hrest : s.Rests context t)
    (hreach : s₀.Reaches ls s) (hl : l ≠ .openParen) (hresume : context.resume t l = .ok s')
    (hreach' : s'.Reaches ms s'') : s₀.Reaches (ls ++ l :: ms) s'' :=
  hreach.append (.step ((hrest.step hl).trans hresume) hreach')

/-- **Completeness.**  Whatever a category derives is read. -/
theorem Derives.completes (h : Derives c ls t) : Completes c ls t := by
  -- on the derivation; the levels and frames around the category are arbitrary in each clause
  induction h with
  | number hvalue =>
    intro context
    exact ⟨_, .single (by rw [State.step, hvalue]), .complete⟩
  | name =>
    intro context
    exact ⟨_, .single rfl, .name⟩
  | group _ ih =>
    intro context
    -- inside the parentheses an empty level starts
    obtain ⟨s, level, u, hreach, hrest, hclose⟩ := ih [] (.group context.level :: context.frames)
    refine ⟨_, .step rfl (hrest.continue hreach (by simp) rfl .refl), ?_⟩
    rw [hclose]
    exact .complete
  | call _ ih =>
    intro context
    obtain ⟨s, level, arguments, u, hreach, hrest, hchain⟩ :=
      ih (String.ofList _) context.level context.frames
    refine ⟨_, .step rfl (.step rfl (hrest.continue hreach (by simp) rfl .refl)), ?_⟩
    rw [hchain]
    exact .complete
  | argument _ ih =>
    intro callee outer frames
    obtain ⟨s, level, u, hreach, hrest, hclose⟩ := ih [] (.call callee none outer :: frames)
    exact ⟨s, level, none, u, hreach, hrest, hclose⟩
  | @comma ls ms l r _ _ ihl ihr =>
    intro callee outer frames
    obtain ⟨s, level, arguments, u, hreach, hrest, rfl⟩ := ihl callee outer frames
    obtain ⟨s', level', u', hreach', hrest', hclose⟩ :=
      ihr [] (.call callee (some (chain arguments (level.close u))) outer :: frames)
    refine ⟨s', level', some _, u', hrest.continue hreach (by simp) rfl hreach', hrest', ?_⟩
    rw [chain, hclose]
    rfl
  | base _ ih =>
    intro as sum product bs frames
    obtain ⟨s, hreach, hrest⟩ := ih ⟨⟨as, sum, product, bs⟩, frames⟩
    exact ⟨s, bs, _, hreach, hrest, rfl⟩
  | @exponent ls ms l r _ _ ihl ihr =>
    intro as sum product bs frames
    obtain ⟨s, hreach, hrest⟩ := ihl ⟨⟨as, sum, product, bs⟩, frames⟩
    -- the base waits until the exponent is complete
    obtain ⟨s', bs', u, hreach', hrest', hpower⟩ := ihr as sum product (l :: bs) frames
    exact ⟨s', bs', u, hrest.continue hreach (by simp) rfl hreach', hrest', hpower⟩
  | factor _ ih =>
    intro as sum frames
    obtain ⟨s, bs, u, hreach, hrest, hpower⟩ := ih as sum none [] frames
    exact ⟨s, none, bs, u, hreach, hrest, hpower⟩
  | @multiplicative ls ms l r sign _ _ ihl ihr =>
    intro as sum frames
    obtain ⟨s, product, bs, u, hreach, hrest, rfl⟩ := ihl as sum frames
    -- the product so far is folded into its left side
    obtain ⟨s', bs', u', hreach', hrest', hpower⟩ := ihr as sum (some (_, sign)) [] frames
    refine ⟨s', _, bs', u', hrest.continue hreach (by simp) rfl hreach', hrest', ?_⟩
    rw [Level.productOf, hpower]
    rfl
  | term _ ih =>
    intro as frames
    obtain ⟨s, product, bs, u, hreach, hrest, hproduct⟩ := ih as none frames
    exact ⟨s, none, product, bs, u, hreach, hrest, hproduct⟩
  | @additive ls ms l r sign _ _ ihl ihr =>
    intro as frames
    obtain ⟨s, sum, product, bs, u, hreach, hrest, rfl⟩ := ihl as frames
    obtain ⟨s', product', bs', u', hreach', hrest', hproduct⟩ := ihr as (some (_, sign)) frames
    refine ⟨s', _, product', bs', u', hrest.continue hreach (by simp) rfl hreach', hrest', ?_⟩
    rw [Level.sumOf, hproduct]
  | value _ ih =>
    intro as frames
    obtain ⟨s, sum, product, bs, u, hreach, hrest, hsum⟩ := ih as frames
    refine ⟨s, ⟨as, sum, product, bs⟩, u, hreach, hrest, ?_⟩
    rw [Level.close, hsum]
    rfl
  | @equals ls ms l r _ _ ihl ihr =>
    intro as frames
    obtain ⟨s, sum, product, bs, u, hreach, hrest, rfl⟩ := ihl as frames
    -- the left side waits until the whole level closes
    obtain ⟨s', level, u', hreach', hrest', hclose⟩ := ihr (_ :: as) frames
    refine ⟨s', level, u', hrest.continue hreach (by simp) rfl hreach', hrest', ?_⟩
    rw [hclose]
    rfl

/-! ### Whole lines -/

/-- A derived line is read to its tree. -/
theorem Derives.reaches (h : Derives .expression ls t) :
    ∃ s, State.initial.Reaches ls s ∧ s.finish = .ok t := by
  obtain ⟨s, level, u, hreach, hrest, hclose⟩ := h.completes [] []
  refine ⟨s, hreach, ?_⟩
  rw [hrest.finish, Context.finish, hclose]
  rfl

/-- **The reader and the grammar agree.**  A token list is read to a tree exactly if its lexemes
    derive that tree. -/
theorem read_eq_ok_iff {tokens : List Token} :
    read tokens = .ok t ↔ Derives .expression (tokens.map Token.lexeme) t := by
  constructor
  · exact derives_of_read
  · intro h
    exact run_eq_ok_iff.mpr h.reaches

/-- **Unambiguity.**  In every category, lexemes derive at most one tree. -/
theorem Derives.unique (h : Derives c ls t) (h' : Derives c ls u) : t = u := by
  have hexpression : ∀ {ls t u}, Derives .expression ls t → Derives .expression ls u → t = u := by
    intro ls t u h h'
    obtain ⟨s, hreach, hfinish⟩ := h.reaches
    obtain ⟨s', hreach', hfinish'⟩ := h'.reaches
    -- both trees are what the reader finishes with in the one state behind the lexemes
    obtain rfl := hreach.unique hreach'
    exact Except.ok.inj (hfinish.symm.trans hfinish')
  -- every other category is part of an expression
  cases c with
  | expression => exact hexpression h h'
  | sum => exact hexpression (.value h) (.value h')
  | product => exact hexpression (.value (.term h)) (.value (.term h'))
  | power => exact hexpression (.value (.term (.factor h))) (.value (.term (.factor h')))
  | primary =>
    exact hexpression (.value (.term (.factor (.base h)))) (.value (.term (.factor (.base h'))))
  | arguments =>
    have hcall : ∀ {v}, Derives .arguments ls v → Derives .expression _ _ := fun h =>
      .value (.term (.factor (.base (@Derives.call [] _ _ h))))
    exact (Tree.node.inj (hexpression (hcall h) (hcall h'))).2.2

end ExprForest.Statement

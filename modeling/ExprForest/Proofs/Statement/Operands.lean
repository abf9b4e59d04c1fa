import ExprForest.Proofs.Lexical.Nesting
import ExprForest.Proofs.Statement.Completeness
import ExprForest.Proofs.Statement.Parts

namespace ExprForest.Statement

/-!
# The reader at operands

What the reader does over the operands of a category, without regard to their trees: it comes to rest
behind them, or it stops on the way.

* `Alike`, `State.Resting` — frames but for the arguments already read, and a state behind an operand;
* `State.Stops` — a state that cannot continue;
* `State.Resting.sign`, `State.Resting.unclosed` — a sign behind an operand, and parentheses that are not
  closed behind one;
* `Passes`, `Stalls` — over some lexemes the reader comes to rest, or it stops behind them, from wherever an
  operand must follow; `GoesOn`, `Halts` — the same from behind an operand.
-/

variable {n : Nat} {s : State} {context : Context} {frames frames' frames'' : List Frame}
variable {l : Lexeme} {ls ms rest before after : List Lexeme} {text : List Char} {t : Tree} {stop : Stop}

/-! ### Frames -/

/-- Frames that differ at most in the arguments already read of the innermost call. -/
inductive Alike : List Frame → List Frame → Prop where
  | refl {frames : List Frame} :
      Alike frames frames
  | call {callee : String} {arguments arguments' : Option Tree} {outer : Level} {frames : List Frame} :
      Alike (.call callee arguments outer :: frames) (.call callee arguments' outer :: frames)

theorem Alike.trans (h : Alike frames frames') (h' : Alike frames' frames'') : Alike frames frames'' := by
  cases h with
  | refl => exact h'
  | call =>
    cases h' with
    | refl => exact .call
    | call => exact .call

/-- Frames inside which operands of looseness `n` may stand: a comma needs a call around it. -/
def Admits (n : Nat) (frames : List Frame) : Prop :=
  n = 5 → ∃ callee arguments outer rest, frames = .call callee arguments outer :: rest

theorem admits_of_lt (h : n < 5) : Admits n frames :=
  fun hn => absurd hn (Nat.ne_of_lt h)

theorem Admits.alike (h : Admits n frames) (halike : Alike frames frames') : Admits n frames' := by
  intro hn
  obtain ⟨callee, arguments, outer, rest, rfl⟩ := h hn
  cases halike with
  | refl => exact ⟨callee, arguments, outer, rest, rfl⟩
  | call => exact ⟨callee, _, outer, rest, rfl⟩

/-- The frames right inside a parenthesis, around operands of looseness `n`: those of a group around an
    expression, those of a call around arguments. -/
inductive Opens : Nat → List Frame → Prop where
  | group {outer : Level} {frames : List Frame} :
      Opens 4 (.group outer :: frames)
  | call {callee : String} {arguments : Option Tree} {outer : Level} {frames : List Frame} :
      Opens 5 (.call callee arguments outer :: frames)

theorem Opens.admits (h : Opens n frames) : Admits n frames := by
  intro hn
  cases h with
  | group => cases hn
  | call => exact ⟨_, _, _, _, rfl⟩

theorem Opens.alike (h : Opens n frames) (halike : Alike frames frames') : Opens n frames' := by
  cases h with
  | group =>
    cases halike
    exact .group
  | call =>
    cases halike with
    | refl => exact .call
    | call => exact .call

/-! ### States -/

namespace State

/-- A state cannot continue with some lexemes, nor end before them if there are none. -/
def Stops (s : State) (ls : List Lexeme) (stop : Stop) : Prop :=
  match ls with
  | [] => s.finish = .error stop
  | l :: _ => s.step l = .error stop

/-- Behind an operand inside some frames, where what follows does not make a name a callee. -/
def Resting (s : State) (frames : List Frame) (ls : List Lexeme) : Prop :=
  ∃ context t, s.Rests context t ∧ Alike frames context.frames ∧
    ∀ l ms, ls = l :: ms → s.step l = context.resume t l

namespace Resting

theorem of_alike (halike : Alike frames frames') (h : s.Resting frames' ls) : s.Resting frames ls := by
  obtain ⟨context, t, hrest, halike', hstep⟩ := h
  exact ⟨context, t, hrest, halike.trans halike', hstep⟩

/-- Behind a sign an operand must follow, for the base of a `^` if that is the sign. -/
theorem sign (h : s.Resting frames (l :: ls)) (hn : l.looseness = n) (hpos : 0 < n) (hle : n ≤ 5)
    (hadmits : Admits n frames) :
    ∃ context, s.step l = .ok (.operand context) ∧ Alike frames context.frames ∧
      (!context.level.bases.isEmpty) = decide (n = 1) := by
  obtain ⟨⟨level, frames'⟩, t, -, halike, hstep⟩ := h
  rw [hstep l ls rfl]
  subst hn
  cases l with
  | comma =>
    obtain ⟨callee, arguments, outer, rest, rfl⟩ := (hadmits.alike halike) rfl
    exact ⟨_, rfl, halike.trans .call, rfl⟩
  | openParen => exact absurd hpos (Nat.lt_irrefl 0)
  | closeParen => exact absurd hle (by decide)
  | number _ => exact absurd hle (by decide : ¬7 ≤ 5)
  | name _ => exact absurd hle (by decide : ¬7 ≤ 5)
  | _ => exact ⟨_, rfl, halike, rfl⟩

/-- Inside parentheses, nothing but a sign or the closing parenthesis can follow an operand. -/
theorem unclosed (h : s.Resting frames ls) (hopens : Opens n frames)
    (hhead : ∀ l ms, ls = l :: ms → l ≠ .closeParen ∧ (l.looseness = 0 ∨ n < l.looseness)) :
    s.Stops ls (.operatorMissing true) := by
  obtain ⟨⟨level, frames'⟩, t, hrest, halike, hstep⟩ := h
  have hopens' : Opens n frames' := hopens.alike halike
  cases ls with
  | nil =>
    show s.finish = _
    rw [hrest.finish]
    cases hopens' <;> rfl
  | cons l ls =>
    obtain ⟨hclose, hlooseness⟩ := hhead l ls rfl
    show s.step l = _
    rw [hstep l ls rfl]
    cases hopens' <;> cases l <;>
      first | rfl | exact absurd rfl hclose | (simp [Lexeme.looseness] at hlooseness)

/-- A closing parenthesis leaves the frame that it closes. -/
theorem close (h : s.Resting frames (.closeParen :: ls)) (hopens : Opens n frames) :
    ∃ context t, s.step .closeParen = .ok (.complete context t) ∧ context.frames = frames.tail := by
  obtain ⟨⟨level, frames'⟩, t, -, halike, hstep⟩ := h
  rw [hstep _ ls rfl]
  cases hopens.alike halike <;> cases halike <;> exact ⟨_, _, rfl, rfl⟩

/-- Outside of parentheses, nothing but a sign or the end of the line can follow an operand. -/
theorem unfinished (h : s.Resting [] (l :: ls)) (hhead : l.looseness = 0 ∨ 4 < l.looseness) :
    s.step l = .error (.operatorMissing false) := by
  obtain ⟨⟨level, frames⟩, t, -, halike, hstep⟩ := h
  cases halike
  rw [hstep l ls rfl]
  cases l <;> first | rfl | (simp [Lexeme.looseness] at hhead)

/-- There the line may end. -/
theorem finish (h : s.Resting [] []) : ∃ t, s.finish = .ok t := by
  obtain ⟨⟨level, frames⟩, t, hrest, halike, -⟩ := h
  cases halike
  exact ⟨_, hrest.finish⟩

end Resting

theorem resting_complete : (complete context t).Resting context.frames ls :=
  ⟨context, t, .complete, .refl, fun _ _ _ => rfl⟩

theorem resting_name {text : String} (h : ∀ ms, ls ≠ .openParen :: ms) :
    (name context text).Resting context.frames ls := by
  refine ⟨context, _, .name, .refl, ?_⟩
  rintro l ms rfl
  exact step_name fun hl => h ms (by rw [hl])

end State

/-! ### Stretches -/

/-- Wherever an operand must follow, the reader comes to rest over some lexemes. -/
def Passes (n : Nat) (ms rest : List Lexeme) : Prop :=
  ∀ context : Context, Admits n context.frames →
    ∃ s, (State.operand context).Reaches ms s ∧ s.Resting context.frames rest

/-- Wherever an operand must follow, the reader stops behind some lexemes. -/
def Stalls (n : Nat) (before after : List Lexeme) (stop : Stop) : Prop :=
  ∀ context : Context, Admits n context.frames →
    ∃ s, (State.operand context).Reaches before s ∧ s.Stops after stop

/-- Behind an operand, the reader comes to rest again over some lexemes. -/
def GoesOn (n : Nat) (ms rest : List Lexeme) : Prop :=
  ∀ (s : State) (frames : List Frame), Admits n frames → s.Resting frames (ms ++ rest) →
    ∃ s', s.Reaches ms s' ∧ s'.Resting frames rest

/-- Behind an operand, the reader stops behind some lexemes. -/
def Halts (n : Nat) (before after : List Lexeme) (stop : Stop) : Prop :=
  ∀ (s : State) (frames : List Frame), Admits n frames → s.Resting frames (before ++ after) →
    ∃ s', s.Reaches before s' ∧ s'.Stops after stop

theorem goesOn_nil : GoesOn n [] rest :=
  fun s _ _ h => ⟨s, .refl, h⟩

namespace Passes

/-- An operand, and what goes on behind it. -/
theorem goesOn (h : Passes n ms (ls ++ rest)) (hn : n < 5) (h' : GoesOn (n + 1) ls rest) :
    Passes (n + 1) (ms ++ ls) rest := by
  intro context hadmits
  obtain ⟨s, hreach, hresting⟩ := h context (admits_of_lt hn)
  obtain ⟨s', hreach', hresting'⟩ := h' s context.frames hadmits hresting
  exact ⟨s', hreach.append hreach', hresting'⟩

theorem halts (h : Passes n ms (before ++ after)) (hn : n < 5) (h' : Halts (n + 1) before after stop) :
    Stalls (n + 1) (ms ++ before) after stop := by
  intro context hadmits
  obtain ⟨s, hreach, hresting⟩ := h context (admits_of_lt hn)
  obtain ⟨s', hreach', hstops⟩ := h' s context.frames hadmits hresting
  exact ⟨s', hreach.append hreach', hstops⟩

/-- A sign with an operand behind it, and what goes on behind that. -/
theorem goesOn_cons (h : Passes n ms (ls ++ rest)) (hl : l.looseness = n + 1) (hn : n < 5)
    (h' : GoesOn (n + 1) ls rest) : GoesOn (n + 1) (l :: (ms ++ ls)) rest := by
  intro s frames hadmits hresting
  obtain ⟨context, hstep, halike, -⟩ := hresting.sign hl (Nat.succ_pos n) hn hadmits
  obtain ⟨s₁, hreach, hresting₁⟩ := h context (admits_of_lt hn)
  obtain ⟨s₂, hreach', hresting₂⟩ := h' s₁ frames hadmits (hresting₁.of_alike halike)
  exact ⟨s₂, .step hstep (hreach.append hreach'), hresting₂⟩

theorem halts_cons (h : Passes n ms (before ++ after)) (hl : l.looseness = n + 1) (hn : n < 5)
    (h' : Halts (n + 1) before after stop) : Halts (n + 1) (l :: (ms ++ before)) after stop := by
  intro s frames hadmits hresting
  obtain ⟨context, hstep, halike, -⟩ := hresting.sign hl (Nat.succ_pos n) hn hadmits
  obtain ⟨s₁, hreach, hresting₁⟩ := h context (admits_of_lt hn)
  obtain ⟨s₂, hreach', hstops⟩ := h' s₁ frames hadmits (hresting₁.of_alike halike)
  exact ⟨s₂, .step hstep (hreach.append hreach'), hstops⟩

end Passes

/-- A sign, behind which the reader stalls. -/
theorem Stalls.halts_cons (h : Stalls n before after stop) (hl : l.looseness = n + 1) (hn : n < 5) :
    Halts (n + 1) (l :: before) after stop := by
  intro s frames hadmits hresting
  obtain ⟨context, hstep, -, -⟩ := hresting.sign hl (Nat.succ_pos n) hn hadmits
  obtain ⟨s', hreach, hstops⟩ := h context (admits_of_lt hn)
  exact ⟨s', .step hstep hreach, hstops⟩

theorem Stalls.mono (h : Stalls n before after stop) (hn : n < 5) : Stalls (n + 1) before after stop :=
  fun context _ => h context (admits_of_lt hn)

/-- No operand starts with some lexemes. -/
def Lacks (ls : List Lexeme) : Prop :=
  ∀ context : Context,
    (State.operand context).Stops ls (.operandMissing (!context.level.bases.isEmpty))

/-- A sign without an operand behind it. -/
theorem Lacks.halts (h : Lacks after) (hl : l.looseness = n + 1) (hn : n < 5) :
    Halts (n + 1) [l] after (.operandMissing (decide (n = 0))) := by
  intro s frames hadmits hresting
  obtain ⟨context, hstep, -, hbases⟩ := hresting.sign hl (Nat.succ_pos n) hn hadmits
  have hstops := h context
  have hzero : decide (n + 1 = 1) = decide (n = 0) := by simp
  rw [hbases, hzero] at hstops
  exact ⟨_, .single hstep, hstops⟩

/-! ### Primaries -/

/-- Right inside a parenthesis, the reader stops behind some lexemes. -/
def Blocks (n : Nat) (before after : List Lexeme) (stop : Stop) : Prop :=
  ∀ frames, Opens n frames →
    ∃ s, (State.operand ⟨.empty, frames⟩).Reaches before s ∧ s.Stops after stop

theorem Stalls.blocks (h : Stalls n before after stop) : Blocks n before after stop :=
  fun frames hopens => h ⟨.empty, frames⟩ hopens.admits

theorem Lacks.blocks (h : Lacks after) : Blocks n [] after (.operandMissing false) :=
  fun frames _ => ⟨_, .refl, h ⟨.empty, frames⟩⟩

theorem Passes.blocks (h : Passes n ms after)
    (hhead : ∀ l ls, after = l :: ls → l ≠ .closeParen ∧ (l.looseness = 0 ∨ n < l.looseness)) :
    Blocks n ms after (.operatorMissing true) := by
  intro frames hopens
  obtain ⟨s, hreach, hresting⟩ := h ⟨.empty, frames⟩ hopens.admits
  exact ⟨s, hreach, hresting.unclosed hopens hhead⟩

theorem passes_number {value : Float} (h : Decimal.read? text = some value) :
    Passes 0 [.number text] rest := by
  intro context _
  exact ⟨_, .single (by rw [State.step, h]), State.resting_complete⟩

theorem passes_name (h : ∀ ms, rest ≠ .openParen :: ms) : Passes 0 [.name text] rest :=
  fun _ _ => ⟨_, .single rfl, State.resting_name h⟩

/-- From right inside a parenthesis past the closing one. -/
theorem Passes.close (h : Passes n ms (.closeParen :: rest)) (hopens : Opens n frames) :
    ∃ s, (State.operand ⟨.empty, frames⟩).Reaches (ms ++ [.closeParen]) s ∧
      s.Resting frames.tail rest := by
  obtain ⟨s, hreach, hresting⟩ := h ⟨.empty, frames⟩ hopens.admits
  obtain ⟨context, t, hstep, hframes⟩ := hresting.close hopens
  rw [← hframes]
  exact ⟨_, hreach.append (.single hstep), State.resting_complete⟩

theorem Passes.group (h : Passes 4 ms (.closeParen :: rest)) :
    Passes 0 (.openParen :: (ms ++ [.closeParen])) rest := by
  intro context _
  have hopens : Opens 4 (.group context.level :: context.frames) := .group
  obtain ⟨s, hreach, hresting⟩ := h.close hopens
  exact ⟨s, .step rfl hreach, hresting⟩

theorem Passes.call (h : Passes 5 ms (.closeParen :: rest)) :
    Passes 0 (.name text :: .openParen :: (ms ++ [.closeParen])) rest := by
  intro context _
  have hopens : Opens 5 (.call (String.ofList text) none context.level :: context.frames) := .call
  obtain ⟨s, hreach, hresting⟩ := h.close hopens
  exact ⟨s, .step rfl (.step rfl hreach), hresting⟩

theorem Blocks.group (h : Blocks 4 before after stop) : Stalls 0 (.openParen :: before) after stop := by
  intro context _
  have hopens : Opens 4 (.group context.level :: context.frames) := .group
  obtain ⟨s, hreach, hstops⟩ := h _ hopens
  exact ⟨s, .step rfl hreach, hstops⟩

theorem Blocks.call (h : Blocks 5 before after stop) :
    Stalls 0 (.name text :: .openParen :: before) after stop := by
  intro context _
  have hopens : Opens 5 (.call (String.ofList text) none context.level :: context.frames) := .call
  obtain ⟨s, hreach, hstops⟩ := h _ hopens
  exact ⟨s, .step rfl (.step rfl hreach), hstops⟩

end ExprForest.Statement

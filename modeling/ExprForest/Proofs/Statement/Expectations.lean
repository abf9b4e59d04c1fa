import ExprForest.Proofs.Statement.Failures
import ExprForest.Proofs.Statement.Primaries

namespace ExprForest

/-!
# What could have stood where a line stops

The list in the message of a syntax error, against what the grammar allows in that place.

* `Lexeme.word`, `Lexeme.Listed` — the word for a lexeme, and the lexemes that some words stand for;
* `Statement.listed_operandMissing`, `Statement.listed_operatorMissing` — what is listed where the reader stops;
* `Statement.Begins` — lexemes with which some expression begins: `Statement.State.Reaches.begins_iff` says
  they are those that the reader takes;
* `Statement.Omitted` — the parentheses and commas that are never listed for themselves;
* `Parser.expected_list_names` — the list names all that may follow but what is omitted, and nothing else.
-/

/-! ### Words -/

namespace Lexeme

/-- The rule of a lexeme. -/
def rule : Lexeme → Statement.Rule
  | number _ => .number
  | name _ => .identifier
  | equals => .assign
  | additive .plus => .add
  | additive .minus => .subtract
  | multiplicative .times => .multiply
  | multiplicative .over => .divide
  | caret => .exponent
  | openParen => .openParen
  | closeParen => .closeParen
  | comma => .comma

/-- The word for a lexeme: that of its class, or its sign in quotes. -/
def word (l : Lexeme) : String :=
  l.rule.word

/-- Whether an expression may start with a lexeme. -/
def startsOperand : Lexeme → Bool
  | number _ | name _ | openParen => true
  | _ => false

/-- Whether a lexeme is a sign between two operands. -/
def isInfix : Lexeme → Bool
  | equals | additive _ | multiplicative _ | caret => true
  | _ => false

/-- Whether one of some words stands for a lexeme: its own, or the word for all lexemes with which an
    expression starts. -/
def Listed (words : List String) (l : Lexeme) : Prop :=
  l.word ∈ words ∨ l.startsOperand = true ∧ "expression" ∈ words

end Lexeme

namespace Statement

open Lexeme (Listed)

variable {s s' : State} {context : Context} {l : Lexeme} {ls : List Lexeme} {last : Option Lexeme}
  {t : Tree} {stop : Stop} {afterCaret nested : Bool}

/-- Where an operand is missing, all that an operand may start with is listed, unless a `^` stands before. -/
theorem listed_operandMissing :
    Listed (Stop.operandMissing afterCaret).words l ↔
      l.startsOperand = true ∧ ¬(afterCaret = true ∧ l = .openParen) := by
  rcases l with _ | _ | _ | (_ | _) | (_ | _) | _ | _ | _ | _ <;> cases afterCaret <;>
    simp [Listed, Stop.words_operandMissing, Lexeme.word, Lexeme.rule, Rule.word,
      Lexeme.startsOperand]

/-- Where an operator is missing, all signs between operands are listed, inside parentheses and outside. -/
theorem listed_operatorMissing :
    Listed (Stop.operatorMissing nested).words l ↔ l.isInfix = true := by
  rcases l with _ | _ | _ | (_ | _) | (_ | _) | _ | _ | _ | _ <;> cases nested <;>
    simp [Listed, Stop.words_operatorMissing, Lexeme.word, Lexeme.rule, Rule.word,
      Lexeme.startsOperand, Lexeme.isInfix]

/-- Only words for lexemes are listed, and the end of the line. -/
theorem exists_listed_of_mem_words {word : String} (h : word ∈ stop.words) :
    word = "end of line" ∨ ∃ l : Lexeme, l.WellFormed ∧ Listed [word] l := by
  have hword : ∀ l : Lexeme, l.WellFormed → word = l.word →
      word = "end of line" ∨ ∃ l : Lexeme, l.WellFormed ∧ Listed [word] l := by
    rintro l hl rfl
    exact .inr ⟨l, hl, .inl (List.mem_singleton_self _)⟩
  have hnumber : (Lexeme.number ['0']).WellFormed := .mantissa (.whole ⟨nofun, by simp⟩)
  have hname : (Lexeme.name ['x']).WellFormed := ⟨'x', [], rfl, rfl, nofun⟩
  have hsign : word ∈ ["'+'", "'-'", "'*'", "'/'", "'^'", "'='"] →
      word = "end of line" ∨ ∃ l : Lexeme, l.WellFormed ∧ Listed [word] l := by
    simp only [List.mem_cons, List.not_mem_nil, or_false]
    rintro (rfl | rfl | rfl | rfl | rfl | rfl)
    · exact hword (.additive .plus) trivial rfl
    · exact hword (.additive .minus) trivial rfl
    · exact hword (.multiplicative .times) trivial rfl
    · exact hword (.multiplicative .over) trivial rfl
    · exact hword .caret trivial rfl
    · exact hword .equals trivial rfl
  match stop with
  | .operandMissing true =>
    rcases List.mem_cons.mp h with rfl | h
    · exact hword _ hnumber rfl
    · exact hword _ hname (List.mem_singleton.mp h)
  | .operandMissing false =>
    have hexpression : word ∈ ["expression"] := h
    rw [List.mem_singleton.mp hexpression]
    exact .inr ⟨_, hname, .inr ⟨rfl, List.mem_singleton_self _⟩⟩
  | .operatorMissing false =>
    rcases List.mem_cons.mp h with rfl | h
    · exact .inl rfl
    · exact hsign h
  | .operatorMissing true => exact hsign h
  | .notANumber _ => exact absurd h List.not_mem_nil

/-! ### What the reader takes -/

theorem State.Rests.lack_eq (h : s.Rests context t) : s.lack = context.missing := by
  cases h <;> rfl

/-- Whether the reader goes on with a lexeme. -/
def State.Takes (s : State) (l : Lexeme) : Prop :=
  ∃ s', s.step l = .ok s'

/-- Where an operand must follow, the reader takes what an operand may start with. -/
theorem State.takes_operand_iff (hl : l.WellFormed) :
    (State.operand context).Takes l ↔ l.startsOperand = true := by
  cases l with
  | number text =>
    obtain ⟨value, hvalue⟩ := Decimal.exists_read?_eq_some hl
    refine iff_of_true ⟨.complete context (.number value), ?_⟩ rfl
    rw [State.step, hvalue]
  | name _ => exact iff_of_true ⟨_, rfl⟩ rfl
  | openParen => exact iff_of_true ⟨_, rfl⟩ rfl
  | _ =>
    refine iff_of_false ?_ Bool.false_ne_true
    rintro ⟨_, hstep⟩
    cases hstep

/-- Behind an operand, the reader takes any sign between operands. -/
theorem State.Rests.takes (h : s.Rests context t) (hl : l.isInfix = true) : s.Takes l := by
  cases l with
  | equals => exact ⟨_, h.step nofun⟩
  | additive _ => exact ⟨_, h.step nofun⟩
  | multiplicative _ => exact ⟨_, h.step nofun⟩
  | caret => exact ⟨_, h.step nofun⟩
  | _ => cases hl

/-- What else it takes there is a parenthesis or a comma. -/
theorem State.Rests.cases_of_takes (h : s.Rests context t) (htakes : s.Takes l) :
    l.isInfix = true ∨ l = .closeParen ∨ l = .comma ∨
      l = .openParen ∧ ∃ callee, s = .name context callee := by
  obtain ⟨s', hstep⟩ := htakes
  by_cases hopen : l = .openParen
  · subst hopen
    cases h with
    | name => exact .inr (.inr (.inr ⟨rfl, _, rfl⟩))
    | complete => cases hstep
  · rw [h.step hopen] at hstep
    cases l with
    | closeParen => exact .inr (.inl rfl)
    | comma => exact .inr (.inr (.inl rfl))
    | number _ => cases hstep
    | name _ => cases hstep
    | openParen => exact absurd rfl hopen
    | _ => exact .inl rfl

/-- What the last lexeme tells of a state: whether it is a `^` or a name. -/
def State.Behind : State → Option Lexeme → Prop
  | operand context, last =>
    (last = some .caret ↔ context.level.bases ≠ []) ∧ ∀ text, last ≠ some (.name text)
  | name _ _, last => ∃ text, last = some (.name text)
  | complete _ _, _ => True

theorem Context.behind_resume (h : context.resume t l = .ok s') : s'.Behind (some l) := by
  cases Context.resumes h with
  | closeGroup => trivial
  | closeCall => trivial
  | caret => exact ⟨iff_of_true rfl (List.cons_ne_nil _ _), nofun⟩
  | _ => exact ⟨iff_of_false nofun fun hne => hne rfl, nofun⟩

theorem State.behind_step (h : s.step l = .ok s') : s'.Behind (some l) := by
  have hopened : ∀ frames, (State.operand ⟨.empty, frames⟩).Behind (some .openParen) := fun _ =>
    ⟨iff_of_false nofun (fun hne => hne rfl), nofun⟩
  cases s with
  | operand context =>
    cases l with
    | number text =>
      rw [State.step] at h
      split at h
      · obtain rfl := Except.ok.inj h
        trivial
      · cases h
    | name text =>
      obtain rfl := Except.ok.inj h
      exact ⟨text, rfl⟩
    | openParen =>
      obtain rfl := Except.ok.inj h
      exact hopened _
    | _ => cases h
  | name context callee =>
    by_cases hopen : l = .openParen
    · subst hopen
      obtain rfl := Except.ok.inj h
      exact hopened _
    · rw [State.step_name hopen] at h
      exact Context.behind_resume h
  | complete context t => exact Context.behind_resume h

/-- Only the last lexeme read counts. -/
theorem State.Reaches.behind (h : State.initial.Reaches ls s) : s.Behind ls.getLast? := by
  rcases List.eq_nil_or_concat' ls with rfl | ⟨ms, l, rfl⟩
  · cases h
    exact ⟨iff_of_false nofun (fun hne => hne rfl), nofun⟩
  · obtain ⟨s', -, hlast⟩ := h.split
    rw [List.getLast?_concat]
    cases hlast with
    | step hstep hrest =>
      cases hrest
      exact State.behind_step hstep

/-! ### What is listed -/

/-- The lexemes that may follow but are not listed for themselves: a closing parenthesis and a comma, and an
    opening parenthesis behind a `^` or behind a name. -/
inductive Omitted (last : Option Lexeme) : Lexeme → Prop where
  | closeParen :
      Omitted last .closeParen
  | comma :
      Omitted last .comma
  | behindCaret :
      last = some .caret →
      Omitted last .openParen
  | behindName {text : List Char} :
      last = some (.name text) →
      Omitted last .openParen

/-- Where an operand must follow, what the reader takes is listed, but for a parenthesis behind a `^`. -/
theorem State.listed_operand_iff (hlast : (State.operand context).Behind last) (hl : l.WellFormed) :
    Listed (State.operand context).lack.words l ↔
      (State.operand context).Takes l ∧ ¬Omitted last l := by
  obtain ⟨hcaret, hname⟩ := hlast
  have hbases : (!context.level.bases.isEmpty) = true ↔ last = some .caret := by
    rw [hcaret]
    simp
  show Listed (Stop.operandMissing (!context.level.bases.isEmpty)).words l ↔ _
  rw [listed_operandMissing, hbases, State.takes_operand_iff hl]
  refine and_congr_right fun hstarts => not_congr ⟨?_, ?_⟩
  · rintro ⟨hlast, rfl⟩
    exact .behindCaret hlast
  · intro homitted
    cases homitted with
    | closeParen => cases hstarts
    | comma => cases hstarts
    | behindCaret hlast => exact ⟨hlast, rfl⟩
    | behindName hlast => exact absurd hlast (hname _)

/-- Behind an operand, what the reader takes is listed, but for parentheses and commas. -/
theorem State.Rests.listed_iff (h : s.Rests context t) (hlast : s.Behind last) :
    Listed s.lack.words l ↔ s.Takes l ∧ ¬Omitted last l := by
  rw [h.lack_eq, Context.missing, listed_operatorMissing]
  constructor
  · intro hinfix
    refine ⟨h.takes hinfix, fun homitted => ?_⟩
    cases homitted <;> cases hinfix
  · rintro ⟨htakes, homitted⟩
    rcases h.cases_of_takes htakes with hinfix | rfl | rfl | ⟨rfl, callee, rfl⟩
    · exact hinfix
    · exact absurd .closeParen homitted
    · exact absurd .comma homitted
    · obtain ⟨text, hname⟩ := hlast
      exact absurd (.behindName hname) homitted

theorem State.listed_iff (hlast : s.Behind last) (hl : l.WellFormed) :
    Listed s.lack.words l ↔ s.Takes l ∧ ¬Omitted last l := by
  cases s with
  | operand context => exact State.listed_operand_iff hlast hl
  | name context callee => exact State.Rests.name.listed_iff hlast
  | complete context t => exact State.Rests.complete.listed_iff hlast

/-- The end of the line is listed where the reader could finish. -/
theorem State.end_mem_words_iff : "end of line" ∈ s.lack.words ↔ ∃ t, s.finish = .ok t := by
  have hrest : ∀ {s : State} {context t}, s.Rests context t →
      ("end of line" ∈ s.lack.words ↔ ∃ t, s.finish = .ok t) := by
    rintro s ⟨level, frames⟩ t h
    rw [h.lack_eq, h.finish]
    cases frames with
    | nil => exact iff_of_true (by simp [Context.missing, Stop.words_operatorMissing]) ⟨_, rfl⟩
    | cons frame frames =>
      refine iff_of_false (by simp [Context.missing, Stop.words_operatorMissing]) ?_
      rintro ⟨_, hfinish⟩
      cases hfinish
  cases s with
  | operand context =>
    refine iff_of_false ?_ ?_
    · rw [State.lack]
      cases (!context.level.bases.isEmpty) <;> simp [Stop.words_operandMissing]
    · rintro ⟨_, hfinish⟩
      cases hfinish
  | name context callee => exact hrest .name
  | complete context t => exact hrest .complete

/-! ### What the grammar allows -/

/-- Whether some expression begins with some lexemes. -/
def Begins (ls : List Lexeme) : Prop :=
  ∃ more t, Derives .expression (ls ++ more) t

/-- The grammar allows a lexeme just where the reader takes it. -/
theorem State.Reaches.begins_iff (h : State.initial.Reaches ls s) : Begins (ls ++ [l]) ↔ s.Takes l := by
  -- what is refused has no completion, and what is read can always be completed
  constructor
  · rintro ⟨more, t, hderives⟩
    rw [List.append_assoc] at hderives
    cases hstep : s.step l with
    | ok s' => exact ⟨s', hstep⟩
    | error stop => exact absurd hderives (h.not_derives hstep more t)
  · rintro ⟨s', hstep⟩
    obtain ⟨t, hderives, -⟩ := (h.append (.single hstep)).viable
    exact ⟨s'.completion, t, hderives⟩

/-- It allows the end of the line where the reader can finish. -/
theorem State.Reaches.derives_iff (h : State.initial.Reaches ls s) :
    (∃ t, Derives .expression ls t) ↔ ∃ t, s.finish = .ok t := by
  constructor
  · rintro ⟨t, hderives⟩
    obtain ⟨s', hreach, hfinish⟩ := hderives.reaches
    obtain rfl := h.unique hreach
    exact ⟨t, hfinish⟩
  · rintro ⟨t, hfinish⟩
    exact ⟨t, (State.reads_initial.reaches h).finish hfinish⟩

end Statement

/-! ### Lines -/

namespace Parser

open Lexeme (Listed)
open Statement (Begins Derives Omitted)

variable {p : Parser .standard} {line : String} {ts : List Token} {log : Log}

/-- **What is expected.**  A line of tokens that keeps to the nesting limit and is no statement gives a
    syntax error, whose message lists the words for the rules that the search of the line tried in vain at
    the furthest byte.  Let some tokens of the line stand before this byte.  The end of the line is listed
    exactly if these are an expression.  A lexeme is listed exactly if some expression begins with these and
    that lexeme, unless it is one of those that the list omits: a closing parenthesis, a comma, or an opening
    parenthesis behind a `^` or a name.  Nothing else is listed. -/
theorem expected_list_names (hlex : Token.Lexes line ts)
    (hnest : Lexeme.peak 0 (ts.map Token.lexeme) ≤ p.settings.maxNesting)
    (hreject : ∀ t, (p.statement line log).1 ≠ .success t) :
    ∃ (tries : Statement.Tries) (before after : List Token),
      ts = before ++ after ∧
        Statement.search line = .error tries ∧
        tries.place = (after.head?.map Token.start).getD line.utf8ByteSize ∧
        (p.statement line log).1 = .failure (.syntaxError
          ("expected " ++ Statement.listing tries.words ++ ", found " ++
            Statement.foundAt line tries.place)
          (.point line tries.place) ⟨false, line⟩) ∧
        ("end of line" ∈ tries.words ↔ ∃ t, Derives .expression (before.map Token.lexeme) t) ∧
        (∀ l : Lexeme, l.WellFormed →
          (Listed tries.words l ↔ Begins (before.map Token.lexeme ++ [l]) ∧
            ¬Omitted (before.map Token.lexeme).getLast? l)) ∧
        ∀ word ∈ tries.words, word = "end of line" ∨ ∃ l : Lexeme, l.WellFormed ∧ Listed [word] l := by
  obtain ⟨tries, before, after, s, stop, rfl, hreach, hstops, hnumber, hsearch, hplace, hrules, hfailure⟩ :=
    exists_of_rejected hlex hnest hreject
  -- why the reader stopped is told by the state behind `before` alone
  have hlack : stop = s.lack := by
    cases after with
    | nil => exact Statement.State.eq_lack_of_finish hstops
    | cons next after =>
      exact Statement.State.eq_lack_of_step (hlex.wellFormed next (by simp)) hstops
  have hwords : tries.words = s.lack.words := by
    rw [Statement.Tries.words_eq hrules, hlack]
  rw [Statement.Tries.failure_eq_syntaxError (Statement.Tries.expected_ne_nil hrules hnumber)] at hfailure
  refine ⟨tries, before, after, rfl, hsearch, hplace, hfailure, ?_, fun l hl => ?_, fun word hword => ?_⟩
  · rw [hwords, hreach.derives_iff, Statement.State.end_mem_words_iff]
  · rw [hwords, hreach.begins_iff, Statement.State.listed_iff hreach.behind hl]
  · rw [hwords] at hword
    exact Statement.exists_listed_of_mem_words hword

/-- In `f(x 2`, behind a name inside a call. -/
theorem expected_list_names_behind_argument :
    ∃ (tries : Statement.Tries) (before after : List Token),
      ([⟨.name ['f'], 0⟩, ⟨.openParen, 1⟩, ⟨.name ['x'], 2⟩, ⟨.number ['2'], 4⟩] : List Token) =
          before ++ after ∧
        Statement.search "f(x 2" = .error tries ∧
        tries.place = (after.head?.map Token.start).getD 5 ∧
        (standard.statement "f(x 2" .empty).1 = .failure (.syntaxError
          ("expected " ++ Statement.listing tries.words ++ ", found " ++
            Statement.foundAt "f(x 2" tries.place)
          (.point "f(x 2" tries.place) ⟨false, "f(x 2"⟩) ∧
        ("end of line" ∈ tries.words ↔ ∃ t, Derives .expression (before.map Token.lexeme) t) ∧
        (∀ l : Lexeme, l.WellFormed →
          (Listed tries.words l ↔ Begins (before.map Token.lexeme ++ [l]) ∧
            ¬Omitted (before.map Token.lexeme).getLast? l)) ∧
        ∀ word ∈ tries.words, word = "end of line" ∨ ∃ l : Lexeme, l.WellFormed ∧ Listed [word] l := by
  have hlex : Token.ofLine "f(x 2" =
      .ok [⟨.name ['f'], 0⟩, ⟨.openParen, 1⟩, ⟨.name ['x'], 2⟩, ⟨.number ['2'], 4⟩] := by
    cbv
  have hfailure : (standard.statement "f(x 2" .empty).1 = .failure (.syntaxError
      "expected '+', '-', '*', '/', '^' or '=', found '2'" (.point "f(x 2" 4) ⟨false, "f(x 2"⟩) := by
    cbv
  refine expected_list_names (Token.ofLine_eq_ok_iff.mp hlex) (by decide) ?_
  intro t ht
  cases hfailure.symm.trans ht

/-- In `(x y` a closing parenthesis may stand in the place of the error, but is not listed. -/
theorem closeParen_not_listed :
    Token.ofLine "(x y" = .ok [⟨.openParen, 0⟩, ⟨.name ['x'], 1⟩, ⟨.name ['y'], 3⟩] ∧
      Statement.search "(x y" =
        .error ⟨3, [.exponent, .multiply, .divide, .add, .subtract, .assign]⟩ ∧
      (standard.statement "(x y" .empty).1 = .failure (.syntaxError
        ("expected " ++ Statement.listing ["'+'", "'-'", "'*'", "'/'", "'^'", "'='"] ++ ", found 'y'")
        (.point "(x y" 3) ⟨false, "(x y"⟩) ∧
      Begins [.openParen, .name ['x'], .closeParen] ∧
      ¬Listed ["'+'", "'-'", "'*'", "'/'", "'^'", "'='"] .closeParen := by
  refine ⟨by cbv, by cbv, by cbv, ?_, ?_⟩
  · have hinner : Derives .expression [.name ['x']] (.identifier (String.ofList ['x'])) :=
      Statement.Derives.expression .name
    have hgroup : Derives .expression [.openParen, .name ['x'], .closeParen]
        (.identifier (String.ofList ['x'])) :=
      Statement.Derives.expression (.group hinner)
    exact ⟨[], _, hgroup⟩
  · simp [Listed, Lexeme.word, Lexeme.rule, Statement.Rule.word, Lexeme.startsOperand]

end Parser

end ExprForest

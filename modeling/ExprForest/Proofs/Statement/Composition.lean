import ExprForest.Proofs.Lexical.Seams
import ExprForest.Proofs.Statement.Descent
import ExprForest.Proofs.Statement.Parsing
import ExprForest.Proofs.Statement.Primaries

namespace ExprForest

/-!
# Statements put together

Lines that have trees are put in parentheses and joined by operators, or by commas behind a name.  The line
that results has the tree that is put together in the same way, and needs one level of parentheses more.

* `Lexeme.Nests` — lexemes that close what they open and do not nest too deep, wherever they stand;
* `Statement.Written` — the texts of a tree in a category, with `Statement.outcome_eq_ok_iff_written` for
  lines;
* `Statement.Written.group`, `Statement.Written.operation`, `Statement.Written.commas`,
  `Statement.Written.call` — the ways to put such texts together;
* `Parser.statement_composes` — the same for lines and parsers.
-/

open Statement (Derives Category)

variable {k depth : Nat} {o : Char} {cs ds f : List Char} {l : Lexeme} {ls ms : List Lexeme}
variable {c : Category} {op : Operator} {t u : Tree}

/-! ### Levels of parentheses -/

namespace Lexeme

/-- Parentheses that are open already are open still behind a lexeme, or it has closed one of them. -/
theorem depthAfter_add_le (depth k : Nat) (l : Lexeme) :
    l.depthAfter (depth + k) ≤ depth + l.depthAfter k := by
  cases l with
  | openParen => exact Nat.le_refl _
  | closeParen =>
    show depth + k - 1 ≤ depth + (k - 1)
    omega
  | _ => exact Nat.le_refl _

theorem depthAfter_mono {depth' : Nat} (h : depth ≤ depth') (l : Lexeme) :
    l.depthAfter depth ≤ l.depthAfter depth' := by
  cases l with
  | openParen => exact Nat.succ_le_succ h
  | closeParen => exact Nat.sub_le_sub_right h 1
  | _ => exact h

theorem peak_mono {depth' : Nat} (h : depth ≤ depth') (ls : List Lexeme) :
    peak depth ls ≤ peak depth' ls := by
  induction ls generalizing depth depth' with
  | nil => exact h
  | cons l ls ih => exact max_le_max h (ih (depthAfter_mono h l))

/-- Behind parentheses that are open already, the peak is higher by their number at most. -/
theorem peak_add_le (depth k : Nat) (ls : List Lexeme) : peak (depth + k) ls ≤ depth + peak k ls := by
  induction ls generalizing k with
  | nil => exact Nat.le_refl _
  | cons l ls ih =>
    have hrest : peak (l.depthAfter (depth + k)) ls ≤ depth + peak (l.depthAfter k) ls :=
      (peak_mono (depthAfter_add_le depth k l) ls).trans (ih _)
    simp only [peak]
    omega

/-- Whether some lexemes close what they open and nest at most `k` deep, whatever depth they start from. -/
structure Nests (k : Nat) (ls : List Lexeme) : Prop where
  balanced : Balanced ls
  room : ∀ depth, peak depth ls ≤ depth + k

/-- Balanced lexemes nest as deep as their peak. -/
theorem Balanced.nests (h : Balanced ls) (hpeak : peak 0 ls ≤ k) : Nests k ls := by
  refine ⟨h, fun depth => ?_⟩
  have hadd := peak_add_le depth 0 ls
  rw [Nat.add_zero] at hadd
  omega

theorem Nests.append (hls : Nests k ls) (hms : Nests k ms) : Nests k (ls ++ ms) := by
  refine ⟨hls.balanced.append hms.balanced, fun depth => ?_⟩
  rw [peak_append, hls.balanced depth]
  exact max_le (hls.room depth) (hms.room depth)

/-- A lexeme that is no parenthesis. -/
theorem nests_singleton (h : ∀ depth, l.depthAfter depth = depth) : Nests k [l] := by
  refine ⟨h, fun depth => ?_⟩
  simp only [peak, h depth]
  omega

/-- Parentheses around some lexemes. -/
theorem Nests.enclosed (h : Nests k ls) : Nests (k + 1) (openParen :: (ls ++ [closeParen])) := by
  refine ⟨h.balanced.enclosed, fun depth => ?_⟩
  have hinside := h.room (depth + 1)
  have hpeak : peak depth (openParen :: (ls ++ [closeParen])) =
      max depth (max (peak (depth + 1) ls) (max (depth + 1) depth)) := by
    show max depth (peak (depth + 1) (ls ++ [closeParen])) = _
    rw [peak_append, h.balanced (depth + 1)]
    rfl
  omega

end Lexeme

namespace Statement

open Lexeme (Cuts Nests)

/-! ### Texts of trees -/

/-- Whether a text has a tree in a category, with parentheses that nest at most `k` deep. -/
def Written (k : Nat) (c : Category) (cs : List Char) (t : Tree) : Prop :=
  ∃ ls, Cuts cs ls ∧ Nests k ls ∧ Derives c ls t

/-- The lines that have a tree. -/
theorem outcome_eq_ok_iff_written {line : String} :
    outcome k line = .ok t ↔ Written k .expression line.toList t := by
  rw [outcome_eq_ok_iff]
  constructor
  · rintro ⟨ts, hlex, hpeak, hderives⟩
    -- what derives a tree closes what it opens, so the peak is the same from every depth
    have hbalanced : Lexeme.Balanced (ts.map Token.lexeme) := hderives.balanced
    exact ⟨ts.map Token.lexeme, hlex.cuts, hbalanced.nests hpeak, hderives⟩
  · rintro ⟨ls, hcuts, hnests, hderives⟩
    obtain ⟨ts, hlex, rfl⟩ := hcuts.exists_scans 0
    have hpeak := hnests.room 0
    rw [Nat.zero_add] at hpeak
    exact ⟨ts, hlex, hpeak, hderives⟩

/-- Parentheses around a text, and another text behind them. -/
theorem cuts_enclosed (h : Cuts cs ls) (h' : Cuts ds ms) :
    Cuts ('(' :: (cs ++ ')' :: ds)) (.openParen :: (ls ++ .closeParen :: ms)) :=
  .sign rfl (h.append Lexeme.breaks_closeParen (.sign rfl h'))

/-- A primary is an expression. -/
theorem Written.expression (h : Written k .primary cs t) : Written k .expression cs t := by
  obtain ⟨ls, hcuts, hnests, hderives⟩ := h
  exact ⟨ls, hcuts, hnests, hderives.expression⟩

/-- An expression is a single argument. -/
theorem Written.argument (h : Written k .expression cs t) : Written k .arguments cs t := by
  obtain ⟨ls, hcuts, hnests, hderives⟩ := h
  exact ⟨ls, hcuts, hnests, .argument hderives⟩

/-- An expression in parentheses. -/
theorem Written.group (h : Written k .expression cs t) :
    Written (k + 1) .primary ('(' :: (cs ++ [')'])) t := by
  obtain ⟨ls, hcuts, hnests, hderives⟩ := h
  have hgroup : Derives .primary (.openParen :: (ls ++ [.closeParen])) t := .group hderives
  exact ⟨_, cuts_enclosed hcuts .done, hnests.enclosed, hgroup⟩

/-- An operator between expressions in parentheses. -/
theorem Written.operation {l : Lexeme} (hop : op.WrittenAs o l) (ht : Written k .expression cs t)
    (hu : Written k .expression ds u) :
    Written (k + 1) .expression ('(' :: (cs ++ ')' :: o :: '(' :: (ds ++ [')']))) (.node op t u) := by
  obtain ⟨ls, hcutsLeft, hnestsLeft, hleft⟩ := ht
  obtain ⟨ms, hcutsRight, hnestsRight, hright⟩ := hu
  have hcuts := cuts_enclosed hcutsLeft (.sign hop.sign (cuts_enclosed hcutsRight .done))
  -- for their levels the lexemes are two groups around the sign
  have hnests : Nests (k + 1)
      ((.openParen :: (ls ++ [.closeParen])) ++ ([l] ++ (.openParen :: (ms ++ [.closeParen])))) :=
    hnestsLeft.enclosed.append ((Lexeme.nests_singleton hop.depth).append hnestsRight.enclosed)
  have hderives := hop.derives (.group hleft) (.group hright)
  refine ⟨_, hcuts, ?_, ?_⟩
  · simpa using hnests
  · simpa using hderives

/-- One more argument behind a comma. -/
theorem Written.comma (ht : Written k .arguments cs t) (hu : Written k .expression ds u) :
    Written k .arguments (cs ++ ',' :: ds) (.node .comma t u) := by
  obtain ⟨ls, hcutsEarlier, hnestsEarlier, hearlier⟩ := ht
  obtain ⟨ms, hcutsLast, hnestsLast, hlast⟩ := hu
  have hcuts : Cuts (cs ++ ',' :: ds) (ls ++ .comma :: ms) :=
    hcutsEarlier.append Lexeme.breaks_comma (.sign rfl hcutsLast)
  have hcomma : Nests k [.comma] := Lexeme.nests_singleton fun _ => rfl
  exact ⟨ls ++ .comma :: ms, hcuts, hnestsEarlier.append (hcomma.append hnestsLast),
    hearlier.comma hlast⟩

/-- Lines with commas between them, grouped to the left. -/
theorem Written.commas {line : String} {rest : List (String × Tree)}
    (ht : Written k .arguments line.toList t)
    (hrest : ∀ x ∈ rest, Written k .expression x.1.toList x.2) :
    Written k .arguments (",".intercalate (line :: rest.map Prod.fst)).toList
      (rest.foldl (fun earlier x => .node .comma earlier x.2) t) := by
  -- on the lines behind; the first line takes up one after the other
  induction rest generalizing line t with
  | nil =>
    rw [List.map_nil, String.intercalate_singleton]
    exact ht
  | cons x rest ih =>
    obtain ⟨hx, hrest⟩ := List.forall_mem_cons.mp hrest
    have hfirst : Written k .arguments (line ++ "," ++ x.1).toList (.node .comma t x.2) := by
      rw [String.toList_append, String.toList_append, List.append_assoc]
      exact ht.comma hx
    have hall := ih hfirst hrest
    rw [String.intercalate_cons_append] at hall
    rw [List.map_cons, String.intercalate_cons_cons]
    exact hall

/-- A name before arguments in parentheses. -/
theorem Written.call (hf : IsName f) (h : Written k .arguments cs t) :
    Written (k + 1) .expression (f ++ '(' :: (cs ++ [')']))
      (.node .call (.identifier (String.ofList f)) t) := by
  obtain ⟨ls, hcutsInside, hnestsInside, harguments⟩ := h
  have hname : (Lexeme.name f).WellFormed := hf
  -- the parenthesis ends the name, which is therefore read as it is by itself
  have hcutsName : Cuts f [.name f] := hname.cuts_chars
  have hcuts := hcutsName.append Lexeme.breaks_openParen (cuts_enclosed hcutsInside .done)
  have hnests : Nests (k + 1) [.name f] := Lexeme.nests_singleton fun _ => rfl
  have hcall : Derives .primary (.name f :: .openParen :: (ls ++ [.closeParen]))
      (.node .call (.identifier (String.ofList f)) t) := .call harguments
  exact ⟨_, hcuts, hnests.append hnestsInside.enclosed, hcall.expression⟩

end Statement

/-! ### Lines -/

namespace Parser

/-- **Statements compose.**  Of lines that have trees under some limit, those that are put together of them
    with one more level of parentheses have trees under the next limit: a line in parentheses has the same
    tree, two such lines around the sign of an operator have the node of that operator over both trees,
    and lines behind a name, in parentheses and with commas between them, have the call of that name with
    the comma nodes over their trees, grouped to the left. -/
theorem statement_composes (p p' : Parser .standard) (log : Log)
    (hlimit : p'.settings.maxNesting = p.settings.maxNesting + 1) :
    (∀ s t op S T, op ≠ .call → op ≠ .comma →
      (p.statement s log).1 = .success S → (p.statement t log).1 = .success T →
        (p'.statement ("(" ++ s ++ ")" ++ op.symbol ++ "(" ++ t ++ ")") log).1 =
          .success (.node op S T)) ∧
      (∀ s S, (p.statement s log).1 = .success S →
        (p'.statement ("(" ++ s ++ ")") log).1 = .success S) ∧
      ∀ f s S (rest : List (String × Tree)), IsName f.toList →
        (p.statement s log).1 = .success S → (∀ x ∈ rest, (p.statement x.1 log).1 = .success x.2) →
          (p'.statement (f ++ "(" ++ ",".intercalate (s :: rest.map Prod.fst) ++ ")") log).1 =
            .success (.node .call (.identifier f)
              (rest.foldl (fun earlier x => .node .comma earlier x.2) S)) := by
  simp only [statement_eq_success_iff, Statement.outcome_eq_ok_iff_written, hlimit]
  refine ⟨?_, ?_, ?_⟩
  · intro s t op S T hcall hcomma hs ht
    obtain ⟨o, l, hop⟩ := Operator.exists_writtenAs hcall hcomma
    have hwritten := hs.operation hop ht
    simpa [hop.symbol, String.toList_append] using hwritten
  · intro s S hs
    simpa [String.toList_append] using hs.group.expression
  · intro f s S rest hf hs hrest
    have hwritten := (hs.argument.commas hrest).call hf
    rw [String.ofList_toList] at hwritten
    simpa [String.toList_append, -String.toList_intercalate] using hwritten

/-- A parser for one level of parentheses takes `x = y` and `f(z)`; one for two levels takes what is put
    together of them. -/
theorem statement_composes_of_two_lines :
    ((⟨⟨true, 2⟩, by decide⟩ : Parser .standard).statement "(x = y)*(f(z))" .empty).1 =
        .success (.node .multiply (.node .assign (.identifier "x") (.identifier "y"))
          (.node .call (.identifier "f") (.identifier "z"))) ∧
      ((⟨⟨true, 2⟩, by decide⟩ : Parser .standard).statement "g(x = y,f(z))" .empty).1 =
        .success (.node .call (.identifier "g")
          (.node .comma (.node .assign (.identifier "x") (.identifier "y"))
            (.node .call (.identifier "f") (.identifier "z")))) := by
  have hx : ((⟨⟨true, 1⟩, by decide⟩ : Parser .standard).statement "x = y" .empty).1 =
      .success (.node .assign (.identifier "x") (.identifier "y")) := by
    cbv
  have hf : ((⟨⟨true, 1⟩, by decide⟩ : Parser .standard).statement "f(z)" .empty).1 =
      .success (.node .call (.identifier "f") (.identifier "z")) := by
    cbv
  have hg : IsName "g".toList := ⟨'g', [], rfl, rfl, by simp⟩
  obtain ⟨hoperation, -, hcall⟩ := statement_composes ⟨⟨true, 1⟩, by decide⟩ ⟨⟨true, 2⟩, by decide⟩
    .empty rfl
  constructor
  · exact hoperation "x = y" "f(z)" .multiply _ _ (by decide) (by decide) hx hf
  · exact hcall "g" "x = y" _ [("f(z)", _)] hg hx (List.forall_mem_singleton.mpr hf)

end Parser

end ExprForest

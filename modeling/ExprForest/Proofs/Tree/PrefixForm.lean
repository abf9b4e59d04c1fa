import ExprForest.Forest.Basic
import ExprForest.Proofs.Decimal.Texts

namespace ExprForest

/-!
# The prefix form is uniquely readable

The words of a prefix form are operators, names and numbers.  A bracket or a space ends a word, and none of
them stands in one, so a form is read from left to right in one way only.

* `Tree.Legible` — what is asked of the names and the numbers of a tree;
* `Tree.word_append_inj` — one word before a break;
* `Tree.Legible.append_inj` — one tree before a break;
* `Forest.display_uniquely_readable` — put together, for trees and for forests with a tree on each line.
-/

/-- Two operators never share a symbol. -/
theorem Operator.symbol_injective {a b : Operator} (h : a.symbol = b.symbol) : a = b := by
  cases a <;> cases b <;> first | rfl | exact absurd h (by decide)

namespace Tree

open Lexeme (not_isNumeralStart_of_isNameStart)

/-- Whether the names of a tree are names of the lexical rules, and its numbers finite. -/
def Legible : Tree → Prop
  | number value => value.isFinite = true
  | identifier name => IsName name.toList
  | node _ left right => left.Legible ∧ right.Legible

variable {t u left right : Tree} {op op' : Operator} {w v r s : List Char} {c : Char}

/-! ### Words -/

/-- The characters beside the words: spaces, brackets and the ends of lines. -/
def breaks : List Char :=
  [' ', '(', ')', '\n']

/-- A run of characters of words. -/
def IsWord (cs : List Char) : Prop :=
  ∀ c ∈ cs, c ∉ breaks

/-- Whether a word ends before a text. -/
def EndsWord (rest : List Char) : Prop :=
  ∀ c ∈ rest.head?, c ∈ breaks

theorem endsWord_nil : EndsWord [] := nofun

theorem endsWord_cons (hc : c ∈ breaks) : EndsWord (c :: r) := by
  rintro _ ⟨⟩
  exact hc

theorem endsWord_space (r : List Char) : EndsWord (' ' :: r) := endsWord_cons (by decide)

theorem endsWord_bracket (r : List Char) : EndsWord (')' :: r) := endsWord_cons (by decide)

theorem endsWord_lineFeed (r : List Char) : EndsWord ('\n' :: r) := endsWord_cons (by decide)

theorem takeWhile_word (hw : IsWord w) (hr : EndsWord r) : (w ++ r).takeWhile (· ∉ breaks) = w := by
  rw [List.takeWhile_append_of_pos fun c hc => decide_eq_true (hw c hc)]
  cases r with
  | nil => simp
  | cons c r => simp [hr c rfl]

/-- A word before a break is told by the text. -/
theorem word_append_inj (hw : IsWord w) (hv : IsWord v) (hr : EndsWord r) (hs : EndsWord s)
    (h : w ++ r = v ++ s) : w = v ∧ r = s := by
  have hword : w = v := by rw [← takeWhile_word hw hr, h, takeWhile_word hv hs]
  subst hword
  exact ⟨rfl, List.append_cancel_left h⟩

/-- What belongs to a class of characters that no break belongs to is no break. -/
theorem not_mem_breaks {p : Char → Bool} (hp : breaks.all (!p ·) = true) (hc : p c = true) :
    c ∉ breaks := by
  intro hbreak
  have hnot := List.all_eq_true.mp hp c hbreak
  rw [hc] at hnot
  cases hnot

theorem isWord_symbol (op : Operator) : IsWord op.symbol.toList := by
  have hall : op.symbol.toList.all (· ∉ breaks) = true := by cases op <;> rfl
  simpa [IsWord] using hall

/-! ### Leaves -/

theorem isWord_numberText {x : Float} (hx : x.isFinite = true) : IsWord (numberText x).toList := by
  have hend : ∀ c ∈ Decimal.Format.plain.wholeEnd.toList, Decimal.Format.IsMark c := by
    simp [Decimal.Format.plain]
  intro c hc
  rcases Decimal.Format.isMark_of_mem_text hend hx c hc with hdigit | rfl | rfl | rfl | rfl
  · exact not_mem_breaks rfl hdigit
  all_goals decide

theorem isWord_of_isName (h : IsName w) : IsWord w := by
  obtain ⟨c, rest, rfl, hc, hrest⟩ := h
  exact List.forall_mem_cons.mpr ⟨not_mem_breaks rfl hc,
    fun d hd => not_mem_breaks rfl (hrest d hd)⟩

/-- No number is written like a name. -/
theorem numberText_ne_name {x : Float} (hx : x.isFinite = true) (hw : IsName w) :
    (numberText x).toList ≠ w := by
  obtain ⟨c, rest, htext, hc⟩ := Decimal.Format.exists_text_cons hx
  obtain ⟨d, more, rfl, hd, -⟩ := hw
  intro h
  obtain ⟨rfl, -⟩ := List.cons.inj (htext.symm.trans h)
  rcases hc with rfl | hstart
  · cases hd
  · exact not_isNumeralStart_of_isNameStart hd hstart

/-- The text of a leaf is a word. -/
theorem Legible.isWord (ht : t.Legible) (hleaf : t.isTerminal = true) : IsWord t.prefixForm.toList := by
  cases t with
  | number x => exact isWord_numberText ht
  | identifier name => exact isWord_of_isName ht
  | node op left right => cases hleaf

theorem Legible.prefixForm_ne_nil (ht : t.Legible) (hleaf : t.isTerminal = true) :
    t.prefixForm.toList ≠ [] := by
  cases t with
  | number x =>
    obtain ⟨c, rest, htext, -⟩ := Decimal.Format.exists_text_cons ht
    exact fun h => List.cons_ne_nil c rest (htext.symm.trans h)
  | identifier name =>
    obtain ⟨c, rest, hname, -⟩ := ht
    exact fun h => List.cons_ne_nil c rest (hname.symm.trans h)
  | node op left right => cases hleaf

/-- A leaf is told by its text. -/
theorem Legible.leaf_eq (ht : t.Legible) (hu : u.Legible) (hleaf : t.isTerminal = true)
    (hleaf' : u.isTerminal = true) (h : t.prefixForm.toList = u.prefixForm.toList) : t = u := by
  cases t with
  | number x =>
    cases u with
    | number y =>
      exact congrArg number (Decimal.Format.plain_text_injective ht hu (String.toList_injective h))
    | identifier name => exact absurd h (numberText_ne_name ht hu)
    | node op left right => cases hleaf'
  | identifier name =>
    cases u with
    | number y => exact absurd h.symm (numberText_ne_name hu ht)
    | identifier name' => exact congrArg identifier (String.toList_injective h)
    | node op left right => cases hleaf'
  | node op left right => cases hleaf

/-! ### Trees -/

theorem toList_prefixForm_node (op : Operator) (left right : Tree) :
    (node op left right).prefixForm.toList = '(' :: (op.symbol.toList ++
      ' ' :: (left.prefixForm.toList ++ ' ' :: (right.prefixForm.toList ++ [')']))) := by
  simp [prefixForm]

/-- A leaf is not written like a node. -/
theorem Legible.leaf_append_ne (ht : t.Legible) (hleaf : t.isTerminal = true) :
    t.prefixForm.toList ++ r ≠ (node op left right).prefixForm.toList ++ s := by
  have hword := ht.isWord hleaf
  obtain ⟨c, cs, htext⟩ := List.exists_cons_of_ne_nil (ht.prefixForm_ne_nil hleaf)
  rw [htext] at hword ⊢
  rw [toList_prefixForm_node]
  intro h
  obtain ⟨rfl, -⟩ := List.cons.inj h
  exact hword '(' List.mem_cons_self (by decide)

/-- A tree before a break is told by the text. -/
theorem Legible.append_inj (ht : t.Legible) (hu : u.Legible) (hr : EndsWord r) (hs : EndsWord s)
    (h : t.prefixForm.toList ++ r = u.prefixForm.toList ++ s) : t = u ∧ r = s := by
  induction t generalizing u r s with
  | node op left right ihl ihr =>
    cases u with
    | node op' left' right' =>
      simp only [toList_prefixForm_node, List.cons_append, List.append_assoc, List.nil_append,
        List.cons.injEq, true_and] at h
      -- the symbol and the left subtree end at a space, the right one at the bracket
      obtain ⟨hsymbol, hleft⟩ := word_append_inj (isWord_symbol op) (isWord_symbol op')
        (endsWord_space _) (endsWord_space _) h
      obtain ⟨rfl, hright⟩ := ihl ht.1 hu.1 (endsWord_space _) (endsWord_space _)
        (List.cons.inj hleft).2
      obtain ⟨rfl, hrest⟩ := ihr ht.2 hu.2 (endsWord_bracket _) (endsWord_bracket _)
        (List.cons.inj hright).2
      obtain rfl := Operator.symbol_injective (String.toList_injective hsymbol)
      exact ⟨rfl, (List.cons.inj hrest).2⟩
    | _ => exact absurd h.symm (hu.leaf_append_ne rfl)
  | _ =>
    cases u with
    | node op' left' right' => exact absurd h (ht.leaf_append_ne rfl)
    | _ =>
      obtain ⟨htext, hrest⟩ := word_append_inj (ht.isWord rfl) (hu.isWord rfl) hr hs h
      exact ⟨ht.leaf_eq hu rfl rfl htext, hrest⟩

/-- A tree is told by its form. -/
theorem Legible.prefixForm_inj (ht : t.Legible) (hu : u.Legible) (h : t.prefixForm = u.prefixForm) :
    t = u :=
  (ht.append_inj hu endsWord_nil endsWord_nil (congrArg (·.toList ++ []) h)).1

end Tree

/-! ### Forests -/

namespace Forest

/-- The forms of the trees, each with the end of its line. -/
theorem display_eq_join (f : Forest) :
    f.display = String.join (f.trees.map fun t => t.prefixForm ++ "\n") := by
  simp only [display, Tree.display_eq_prefixForm, String.join, List.foldl_map, String.append_assoc]

theorem toList_display (f : Forest) :
    f.display.toList = f.trees.flatMap fun t => t.prefixForm.toList ++ ['\n'] := by
  have hline : ∀ t : Tree, (t.prefixForm ++ "\n").toList = t.prefixForm.toList ++ ['\n'] := by simp
  rw [display_eq_join, String.toList_join, List.flatMap_map]
  simp only [hline]

/-- Trees with a line for each are told by the text. -/
theorem lines_inj {ts us : List Tree} (hts : ∀ t ∈ ts, t.Legible) (hus : ∀ u ∈ us, u.Legible)
    (h : (ts.flatMap fun t => t.prefixForm.toList ++ ['\n']) =
      us.flatMap fun u => u.prefixForm.toList ++ ['\n']) : ts = us := by
  induction ts generalizing us with
  | nil =>
    cases us with
    | nil => rfl
    | cons u us => simp at h
  | cons t ts ih =>
    cases us with
    | nil => simp at h
    | cons u us =>
      rw [List.forall_mem_cons] at hts hus
      simp only [List.flatMap_cons, List.append_assoc, List.singleton_append] at h
      obtain ⟨rfl, hlines⟩ := hts.1.append_inj hus.1 (Tree.endsWord_lineFeed _) (Tree.endsWord_lineFeed _) h
      rw [ih hts.2 hus.2 (List.cons.inj hlines).2]

/-- **Unique readability.**  A tree is displayed as its prefix form, and a forest as the forms of its trees
with a line for each.  Trees whose names are names of the lexical rules and whose numbers are finite are equal
if they are displayed equally, and so are forests of such trees. -/
theorem display_uniquely_readable :
    (∀ t : Tree, t.display = t.prefixForm) ∧
    (∀ f : Forest, f.display = String.join (f.trees.map fun t => t.prefixForm ++ "\n")) ∧
    (∀ t u : Tree, t.Legible → u.Legible → t.display = u.display → t = u) ∧
    ∀ f g : Forest, (∀ t ∈ f.trees, t.Legible) → (∀ t ∈ g.trees, t.Legible) →
      f.display = g.display → f = g := by
  refine ⟨Tree.display_eq_prefixForm, display_eq_join, ?_, ?_⟩
  · intro t u ht hu h
    rw [Tree.display_eq_prefixForm, Tree.display_eq_prefixForm] at h
    exact ht.prefixForm_inj hu h
  · intro f g hf hg h
    have hlines := congrArg String.toList h
    rw [toList_display, toList_display] at hlines
    exact congrArg Forest.mk (lines_inj hf hg hlines)

/-- The call `f(-1)` is displayed apart from the difference of `g` and `f`, and two lines apart from the same
lines the other way round. -/
theorem display_uniquely_readable_call :
    (Tree.node .call (.identifier "f") (.number (-1))).display ≠
        (Tree.node .subtract (.identifier "g") (.identifier "f")).display ∧
      (Forest.mk [.identifier "f", .number 0.5]).display ≠
        (Forest.mk [.number 0.5, .identifier "f"]).display := by
  have hf : (Tree.identifier "f").Legible := ⟨'f', [], rfl, rfl, nofun⟩
  have hg : (Tree.identifier "g").Legible := ⟨'g', [], rfl, rfl, nofun⟩
  have hminus : (Tree.number (-1)).Legible := by
    show (-1 : Float).isFinite = true
    decide +kernel
  have hhalf : (Tree.number 0.5).Legible := by
    show (0.5 : Float).isFinite = true
    decide +kernel
  constructor
  · intro h
    have hcall : (Tree.node .call (.identifier "f") (.number (-1))).Legible := ⟨hf, hminus⟩
    have hdifference : (Tree.node .subtract (.identifier "g") (.identifier "f")).Legible := ⟨hg, hf⟩
    cases display_uniquely_readable.2.2.1 _ _ hcall hdifference h
  · intro h
    have hlines : ∀ t ∈ [Tree.identifier "f", .number 0.5], t.Legible := by simp [hf, hhalf]
    have hlines' : ∀ t ∈ [Tree.number 0.5, .identifier "f"], t.Legible := by simp [hf, hhalf]
    cases display_uniquely_readable.2.2.2 ⟨_⟩ ⟨_⟩ hlines hlines' h

end Forest

end ExprForest

import ExprForest.Proofs.Json.Members
import ExprForest.Settings.Json

namespace ExprForest.Settings

/-!
# Settings and the members that give them

Which members of an object give settings, and which settings they give.

* `Adds` — what one member adds to settings under construction;
* `Fit` — whether members may stand together in an object that gives settings;
* `Gives` — the settings that have the values of some members, and the standard ones for the rest;
* `Tracked` — what becomes of one of the two values along some members;
* `Fit.exists_chain`, `fit_of_chain`, `gives_of_chain` — members may be added one after another if they are
  fit, and what they make are the settings that they give.
-/

-- Powers are those of the core library, whatever else is imported.
attribute [local instance (high)] instPowNat

open Json (Chain)
open Json.Grammar (Member IsNatural)

variable {α : Type} {name : String} {means : List Char → α → Prop} {m : Member} {ms : List Member}
  {before after : Option α} {p p' : Parts} {x : α}

/-- What a member adds to settings under construction, if it is a value that is still missing. -/
inductive Adds (m : Member) : Parts → Parts → Prop where
  | skipBlankLines {p : Parts} {b : Bool} :
      m.Named "skip_blank_lines" → p.skipBlankLines = none → m.item.value = (toString b).toList →
      Adds m p { p with skipBlankLines := some b }
  | maxNesting {p : Parts} {n : Nat} :
      m.Named "max_nesting" → p.maxNesting = none → IsNatural m.item.value n ∧ n < 2 ^ (64 : Nat) →
      Adds m p { p with maxNesting := some n }

/-- Whether members may stand together: each has one of the two names, no two have the same, and their values
    are a truth value and a whole number of 64 bits that is at least `low`. -/
structure Fit (low : Nat) (ms : List Member) : Prop where
  known : ∀ m ∈ ms, m.Named "skip_blank_lines" ∨ m.Named "max_nesting"
  once : ms.Pairwise fun m m' => ∀ name, m.Named name → ¬m'.Named name
  skipBlankLines : ∀ m ∈ ms, m.Named "skip_blank_lines" → ∃ b : Bool, m.item.value = (toString b).toList
  maxNesting : ∀ m ∈ ms, m.Named "max_nesting" →
    ∃ n, IsNatural m.item.value n ∧ low ≤ n ∧ n < 2 ^ (64 : Nat)

/-- Whether settings have the values that members give, and the standard ones for those that are absent. -/
structure Gives (ms : List Member) (s : Settings) : Prop where
  skipBlankLines : ∀ m ∈ ms, m.Named "skip_blank_lines" → m.item.value = (toString s.skipBlankLines).toList
  maxNesting : ∀ m ∈ ms, m.Named "max_nesting" → IsNatural m.item.value s.maxNesting
  skipBlankLines_absent : (∀ m ∈ ms, ¬m.Named "skip_blank_lines") →
    s.skipBlankLines = standard.skipBlankLines
  maxNesting_absent : (∀ m ∈ ms, ¬m.Named "max_nesting") → s.maxNesting = standard.maxNesting

/-! ### Names -/

/-- A member that adds something has a name. -/
theorem Adds.exists_named (h : Adds m p p') : ∃ name, m.Named name := by
  cases h with
  | skipBlankLines hname => exact ⟨_, hname⟩
  | maxNesting hname => exact ⟨_, hname⟩

/-- A member has only one name. -/
theorem name_eq (h : m.Named name) {name' : String} (h' : m.Named name') : name = name' :=
  String.toList_injective (Json.Grammar.Spells.unique h h')

theorem not_named_maxNesting (h : m.Named "skip_blank_lines") : ¬m.Named "max_nesting" := by
  intro h'
  exact absurd (name_eq h h') (by decide)

/-! ### One value along the members -/

/-- What becomes of a value of a given name along some members: the first of that name sets it, and there is
    no other. -/
structure Tracked (name : String) (means : List Char → α → Prop) (ms : List Member)
    (before after : Option α) : Prop where
  set : ∀ m ∈ ms, m.Named name → ∃ x, after = some x ∧ means m.item.value x
  kept : (∀ m ∈ ms, ¬m.Named name) → after = before
  missing : before ≠ none → ∀ m ∈ ms, ¬m.Named name
  once : ms.Pairwise fun m m' => m.Named name → ¬m'.Named name

theorem Tracked.nil : Tracked name means [] before before where
  set := List.forall_mem_nil _
  kept _ := rfl
  missing _ := List.forall_mem_nil _
  once := .nil

/-- A member of another name. -/
theorem Tracked.other (hm : ¬m.Named name) (h : Tracked name means ms before after) :
    Tracked name means (m :: ms) before after where
  set := List.forall_mem_cons.mpr ⟨fun hm' => absurd hm' hm, h.set⟩
  kept hall := h.kept (List.forall_mem_cons.mp hall).2
  missing hbefore := List.forall_mem_cons.mpr ⟨hm, h.missing hbefore⟩
  once := .cons (fun _ _ hm' => absurd hm' hm) h.once

/-- A member of the name. -/
theorem Tracked.named (hm : m.Named name) (hx : means m.item.value x)
    (h : Tracked name means ms (some x) after) : Tracked name means (m :: ms) none after := by
  have hnone := h.missing (Option.some_ne_none x)
  exact {
    set := List.forall_mem_cons.mpr ⟨fun _ => ⟨x, h.kept hnone, hx⟩, h.set⟩
    kept := fun hall => absurd hm (hall m List.mem_cons_self)
    missing := fun hne => absurd rfl hne
    once := .cons (fun m' hm' _ => hnone m' hm') h.once }

/-! ### All members -/

/-- What members make of settings under construction, for each of the two values. -/
theorem tracked_of_chain (h : Chain Adds ms p p') :
    (∀ m ∈ ms, m.Named "skip_blank_lines" ∨ m.Named "max_nesting") ∧
      Tracked "skip_blank_lines" (fun value b => value = (toString b).toList) ms p.skipBlankLines
        p'.skipBlankLines ∧
      Tracked "max_nesting" (fun value n => IsNatural value n ∧ n < 2 ^ (64 : Nat)) ms p.maxNesting
        p'.maxNesting := by
  induction h with
  | nil => exact ⟨List.forall_mem_nil _, .nil, .nil⟩
  | cons hadds _ ih =>
    obtain ⟨hknown, hskip, hmax⟩ := ih
    cases hadds with
    | skipBlankLines hname hmissing hvalue =>
      refine ⟨List.forall_mem_cons.mpr ⟨.inl hname, hknown⟩, ?_, hmax.other (not_named_maxNesting hname)⟩
      rw [hmissing]
      exact hskip.named hname hvalue
    | maxNesting hname hmissing hvalue =>
      refine ⟨List.forall_mem_cons.mpr ⟨.inr hname, hknown⟩,
        hskip.other fun hname' => not_named_maxNesting hname' hname, ?_⟩
      rw [hmissing]
      exact hmax.named hname hvalue

/-- Members that are added one after another are fit. -/
theorem fit_of_chain (h : Chain Adds ms record.start p) : Fit 0 ms := by
  obtain ⟨hknown, hskip, hmax⟩ := tracked_of_chain h
  exact {
    known := hknown
    once := by
      refine (hskip.once.and hmax.once).imp_of_mem fun {m m'} hm _ hand name hname => ?_
      obtain ⟨hskip, hmax⟩ := hand
      rcases hknown m hm with hm | hm
      · exact name_eq hm hname ▸ hskip hm
      · exact name_eq hm hname ▸ hmax hm
    skipBlankLines := fun m hm hname => by
      obtain ⟨b, -, hb⟩ := hskip.set m hm hname
      exact ⟨b, hb⟩
    maxNesting := fun m hm hname => by
      obtain ⟨n, -, hn, hlt⟩ := hmax.set m hm hname
      exact ⟨n, hn, Nat.zero_le n, hlt⟩ }

/-- What they make are the settings that they give. -/
theorem gives_of_chain {s : Settings} (h : Chain Adds ms record.start p)
    (hs : record.complete p = .ok s) : Gives ms s := by
  obtain ⟨-, hskip, hmax⟩ := tracked_of_chain h
  obtain rfl := Except.ok.inj hs
  exact {
    skipBlankLines := fun m hm hname => by
      obtain ⟨b, hb, hvalue⟩ := hskip.set m hm hname
      simpa only [hb, Option.getD_some] using hvalue
    maxNesting := fun m hm hname => by
      obtain ⟨n, hn, hvalue, -⟩ := hmax.set m hm hname
      simpa only [hn, Option.getD_some] using hvalue
    skipBlankLines_absent := fun habsent => by
      simp only [hskip.kept habsent]
      rfl
    maxNesting_absent := fun habsent => by
      simp only [hmax.kept habsent]
      rfl }

/-- Members do not give two settings. -/
theorem Gives.unique {s s' : Settings} (h : Gives ms s) (h' : Gives ms s') : s = s' := by
  have hskip : s.skipBlankLines = s'.skipBlankLines := by
    by_cases habsent : ∀ m ∈ ms, ¬m.Named "skip_blank_lines"
    · rw [h.skipBlankLines_absent habsent, h'.skipBlankLines_absent habsent]
    · push Not at habsent
      obtain ⟨m, hm, hname⟩ := habsent
      have heq := (h.skipBlankLines m hm hname).symm.trans (h'.skipBlankLines m hm hname)
      revert heq
      cases s.skipBlankLines <;> cases s'.skipBlankLines <;> decide
  have hmax : s.maxNesting = s'.maxNesting := by
    by_cases habsent : ∀ m ∈ ms, ¬m.Named "max_nesting"
    · rw [h.maxNesting_absent habsent, h'.maxNesting_absent habsent]
    · push Not at habsent
      obtain ⟨m, hm, hname⟩ := habsent
      exact (h.maxNesting m hm hname).2.symm.trans (h'.maxNesting m hm hname).2
  cases s
  cases s'
  simp_all

theorem Fit.tail {low : Nat} (h : Fit low (m :: ms)) : Fit low ms where
  known := (List.forall_mem_cons.mp h.known).2
  once := h.once.of_cons
  skipBlankLines := (List.forall_mem_cons.mp h.skipBlankLines).2
  maxNesting := (List.forall_mem_cons.mp h.maxNesting).2

/-- Fit members may be added to settings under construction that miss what they give. -/
theorem Fit.exists_chain_from (h : Fit 0 ms) (p : Parts)
    (hskip : p.skipBlankLines ≠ none → ∀ m ∈ ms, ¬m.Named "skip_blank_lines")
    (hmax : p.maxNesting ≠ none → ∀ m ∈ ms, ¬m.Named "max_nesting") : ∃ p', Chain Adds ms p p' := by
  induction ms generalizing p with
  | nil => exact ⟨p, .nil⟩
  | cons m ms ih =>
    have honce := (List.pairwise_cons.mp h.once).1
    have hskip_tail : p.skipBlankLines ≠ none → ∀ m ∈ ms, ¬m.Named "skip_blank_lines" :=
      fun hne => (List.forall_mem_cons.mp (hskip hne)).2
    have hmax_tail : p.maxNesting ≠ none → ∀ m ∈ ms, ¬m.Named "max_nesting" :=
      fun hne => (List.forall_mem_cons.mp (hmax hne)).2
    rcases h.known m List.mem_cons_self with hname | hname
    · have hmissing : p.skipBlankLines = none := by
        by_contra hne
        exact hskip hne m List.mem_cons_self hname
      obtain ⟨b, hb⟩ := h.skipBlankLines m List.mem_cons_self hname
      obtain ⟨p', hchain⟩ := ih h.tail { p with skipBlankLines := some b }
        (fun _ m' hm' => honce m' hm' _ hname) hmax_tail
      exact ⟨p', .cons (.skipBlankLines hname hmissing hb) hchain⟩
    · have hmissing : p.maxNesting = none := by
        by_contra hne
        exact hmax hne m List.mem_cons_self hname
      obtain ⟨n, hn, -, hlt⟩ := h.maxNesting m List.mem_cons_self hname
      obtain ⟨p', hchain⟩ := ih h.tail { p with maxNesting := some n } hskip_tail
        (fun _ m' hm' => honce m' hm' _ hname)
      exact ⟨p', .cons (.maxNesting hname hmissing ⟨hn, hlt⟩) hchain⟩

/-- Fit members may be added one after another. -/
theorem Fit.exists_chain (h : Fit 0 ms) : ∃ p, Chain Adds ms record.start p :=
  h.exists_chain_from record.start (fun hne => absurd rfl hne) (fun hne => absurd rfl hne)

end ExprForest.Settings

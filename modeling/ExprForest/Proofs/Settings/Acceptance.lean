import ExprForest.Proofs.Json.Objects
import ExprForest.Proofs.Json.Scalars
import ExprForest.Proofs.Settings.Members

namespace ExprForest.Settings

/-!
# Which texts are settings

An object is accepted exactly if its members are fit, however they are ordered, spaced and spelled, and
settings that are written are read back.

* `decides_member` — what is read of a member is what it adds;
* `readAll_eq_ok_iff` — which settings are read of an object, admissible or not;
* `ofJson_accepts_exactly` — which objects are settings, which settings they are, and why others are refused.
-/

-- Powers are those of the core library, whatever else is imported.
attribute [local instance (high)] instPowNat

open Json (Chain Reader)
open Json.Grammar (Gap Item Member IsBody Spells IsValue IsNatural IsObjectText isBody_and_spells_self
  isNatural_toString)
open Json.Reader (Decides yields_unfit)

variable {α : Type} {m : Member} {ms : List Member} {p : Parts} {s : Settings} {text name : String}
  {more : List Char}

/-! ### Reading members -/

theorem member_skipBlankLines (p : Parts) : record.member p "skip_blank_lines" =
    if p.skipBlankLines.isSome then Reader.unfit (.duplicateField "skip_blank_lines")
    else do
      Reader.colon
      return { p with skipBlankLines := some (← Reader.boolean) } :=
  rfl

theorem member_maxNesting (p : Parts) : record.member p "max_nesting" =
    if p.maxNesting.isSome then Reader.unfit (.duplicateField "max_nesting")
    else do
      Reader.colon
      return { p with maxNesting := some (← Reader.natural) } :=
  rfl

theorem member_other (p : Parts) (hskip : name ≠ "skip_blank_lines") (hmax : name ≠ "max_nesting") :
    record.member p name = Reader.unfit (.unknownField name record.names) := by
  have hfind : record.fields.find? (fun f => f.name == name) = none := by
    simp [record, hskip.symm, hmax.symm]
  rw [Json.Record.member, hfind]
  rfl

/-- A member that sets a value which may be there already. -/
theorem decides_field {old : Option α} {mismatch : Json.Mismatch} {field : Reader α} {set : α → Parts}
    {kind : α → Prop} {text rest : List Char} (h : Decides field text rest kind) (gap : Gap) :
    Decides (if old.isSome then Reader.unfit mismatch else do Reader.colon; return set (← field))
      (gap.chars ++ ':' :: text) rest fun p' => old = none ∧ ∃ x, kind x ∧ p' = set x := by
  cases old with
  | some x => exact .of_refused (yields_unfit _ _) fun p' hp' => Option.some_ne_none x hp'.1
  | none =>
    have hread : Decides (do Reader.colon; return set (← field)) (gap.chars ++ ':' :: text) rest
        fun p' => ∃ x, kind x ∧ p' = set x :=
      h.map.lift fun _ ho => Reader.Yields.bind (Reader.yields_colon_behind gap text) ho
    exact hread.congr fun p' => (and_iff_right rfl).symm

/-- **Members.**  What is read of a member is what it adds. -/
theorem decides_member (hvalue : IsValue m.item.value) (hname : m.Named name)
    (hmore : Json.Numeral.Ends (m.item.behind.chars ++ more)) (p : Parts) :
    Decides (record.member p name) (m.behind.chars ++ ':' :: (m.item.text ++ more))
      (m.item.behind.chars ++ more) (Adds m p) := by
  have htext : m.item.text ++ more =
      m.item.before.chars ++ (m.item.value ++ (m.item.behind.chars ++ more)) := by
    simp [Item.text]
  rw [htext]
  by_cases hskip : name = "skip_blank_lines"
  · subst hskip
    rw [member_skipBlankLines]
    refine (decides_field (Reader.decides_boolean hvalue _ _) m.behind).congr fun p' => ?_
    constructor
    · rintro ⟨hmissing, b, hb, rfl⟩
      exact .skipBlankLines hname hmissing hb
    · rintro (⟨-, hmissing, hb⟩ | ⟨hmax, -, -⟩)
      · exact ⟨hmissing, _, hb, rfl⟩
      · exact absurd hmax (not_named_maxNesting hname)
  by_cases hmax : name = "max_nesting"
  · subst hmax
    rw [member_maxNesting]
    refine (decides_field (Reader.decides_natural hvalue hmore _) m.behind).congr fun p' => ?_
    constructor
    · rintro ⟨hmissing, n, hn, rfl⟩
      exact .maxNesting hname hmissing hn
    · rintro (⟨hskip, -, -⟩ | ⟨-, hmissing, hn⟩)
      · exact absurd hname (not_named_maxNesting hskip)
      · exact ⟨hmissing, _, hn, rfl⟩
  rw [member_other p hskip hmax]
  refine .of_refused (yields_unfit _ _) fun p' hadds => ?_
  rcases hadds with ⟨hskip', -, -⟩ | ⟨hmax', -, -⟩
  · exact hskip (name_eq hname hskip')
  · exact hmax (name_eq hname hmax')

/-! ### Whole texts -/

/-- Settings are read of an object if its members are fit, and they are the settings that the members give. -/
theorem readAll_eq_ok_iff (h : IsObjectText text.toList ms) :
    record.read.readAll text = .ok s ↔ Fit 0 ms ∧ Gives ms s := by
  obtain ⟨hvalues, before, gap, behind, htext⟩ := h
  have hread : Decides record.read text.toList behind.chars
      fun s => ∃ p, Chain Adds ms record.start p ∧ record.complete p = .ok s := by
    rw [htext]
    refine record.decides_read (fun m _ p p' hadds => hadds.exists_named) ?_ before gap behind.chars
    exact fun m hm p name more hname hmore => decides_member (hvalues m hm) hname hmore p
  rw [hread.readAll_eq_ok_iff]
  constructor
  · rintro ⟨p, hchain, hs⟩
    exact ⟨fit_of_chain hchain, gives_of_chain hchain hs⟩
  · rintro ⟨hfit, hgives⟩
    obtain ⟨p, hchain⟩ := hfit.exists_chain
    obtain ⟨s', hs'⟩ : ∃ s', record.complete p = .ok s' := ⟨_, rfl⟩
    obtain rfl := hgives.unique (gives_of_chain hchain hs')
    exact ⟨p, hchain, hs'⟩

/-- Fit members give settings. -/
theorem Fit.exists_gives (h : Fit 0 ms) : ∃ s, Gives ms s := by
  obtain ⟨p, hchain⟩ := h.exists_chain
  exact ⟨_, gives_of_chain hchain rfl⟩

theorem Fit.zero {low : Nat} (h : Fit low ms) : Fit 0 ms where
  known := h.known
  once := h.once
  skipBlankLines := h.skipBlankLines
  maxNesting m hm hname := by
    obtain ⟨n, hn, -, hlt⟩ := h.maxNesting m hm hname
    exact ⟨n, hn, Nat.zero_le n, hlt⟩

/-- A number of levels that is not the standard one is given by a member. -/
theorem Gives.exists_named_maxNesting (h : Gives ms s) (hne : s.maxNesting ≠ standard.maxNesting) :
    ∃ m ∈ ms, m.Named "max_nesting" ∧ IsNatural m.item.value s.maxNesting := by
  by_contra hnone
  push Not at hnone
  exact hne (h.maxNesting_absent fun m hm hname => hnone m hm hname (h.maxNesting m hm hname))

/-- The settings are admissible if the number of levels that the members give is. -/
theorem Gives.admissible_iff (h : Gives ms s) (hfit : Fit 0 ms) : s.Admissible ↔ Fit 1 ms := by
  constructor
  · intro hadmissible
    refine ⟨hfit.known, hfit.once, hfit.skipBlankLines, fun m hm hname => ?_⟩
    obtain ⟨n, hn, -, hlt⟩ := hfit.maxNesting m hm hname
    obtain rfl : n = s.maxNesting := hn.2.symm.trans (h.maxNesting m hm hname).2
    exact ⟨s.maxNesting, hn, hadmissible, hlt⟩
  · intro hone
    by_contra hzero
    have hzero : s.maxNesting = 0 := Nat.eq_zero_of_not_pos hzero
    obtain ⟨m, hm, hname, hvalue⟩ := h.exists_named_maxNesting (by rw [hzero]; decide)
    obtain ⟨n, hn, hle, -⟩ := hone.maxNesting m hm hname
    have heq : n = s.maxNesting := hn.2.symm.trans hvalue.2
    omega

/-! ### Written settings -/

theorem isBody_and_spells_skipBlankLines : IsBody "skip_blank_lines".toList ∧
    Spells "skip_blank_lines".toList "skip_blank_lines".toList :=
  isBody_and_spells_self (by simp)

theorem isBody_and_spells_maxNesting : IsBody "max_nesting".toList ∧
    Spells "max_nesting".toList "max_nesting".toList :=
  isBody_and_spells_self (by simp)

/-- The members of settings as they are written, without blanks. -/
def writtenMembers (s : Settings) : List Member :=
  [⟨.none, "skip_blank_lines".toList, isBody_and_spells_skipBlankLines.1, .none,
      ⟨.none, (toString s.skipBlankLines).toList, .none⟩⟩,
    ⟨.none, "max_nesting".toList, isBody_and_spells_maxNesting.1, .none,
      ⟨.none, (toString s.maxNesting).toList, .none⟩⟩]

/-- The text of settings is an object of these members. -/
theorem isObjectText_render (s : Settings) : IsObjectText s.toJson.render.toList (writtenMembers s) := by
  refine ⟨?_, .none, .none, .none, ?_⟩
  · rw [writtenMembers, List.forall_mem_cons, List.forall_mem_singleton]
    exact ⟨.bool s.skipBlankLines, .number (isNatural_toString s.maxNesting).isNumber⟩
  · have hbool : (Json.Value.bool s.skipBlankLines).compact = toString s.skipBlankLines := by
      cases s.skipBlankLines <;> rfl
    have hnumber : (Json.Value.ofNat s.maxNesting).compact = toString s.maxNesting := by
      simp [Json.Value.ofNat, Json.Value.compact, Json.Value.leafText, Json.Number.text]
    have hname : ∀ name ∈ ["skip_blank_lines", "max_nesting"],
        name.toList.flatMap Text.jsonEscaped = name.toList := by
      simp only [List.forall_mem_cons]
      exact ⟨rfl, rfl, List.forall_mem_nil _⟩
    rw [Json.Value.render_eq_compact, toJson, Json.toList_compact_object]
    simp only [Json.membersText, hbool, hnumber, hname _ List.mem_cons_self,
      hname _ (List.mem_cons_of_mem _ List.mem_cons_self)]
    simp [writtenMembers, Json.Grammar.bracketed, Gap.none, Member.text, Item.text, List.intercalate,
      Reader.comma, Json.Bracket.opening, Json.Bracket.closing]

/-- They may be added one after another, and make the settings. -/
theorem chain_writtenMembers (hs : s.maxNesting < 2 ^ (64 : Nat)) :
    Chain Adds (writtenMembers s) record.start ⟨some s.skipBlankLines, some s.maxNesting⟩ :=
  .cons (.skipBlankLines isBody_and_spells_skipBlankLines.2 rfl rfl)
    (.cons (.maxNesting isBody_and_spells_maxNesting.2 rfl ⟨isNatural_toString _, hs⟩) .nil)

/-- Settings that are written are read back, admissible or not. -/
theorem readAll_render (hs : s.maxNesting < 2 ^ (64 : Nat)) :
    record.read.readAll s.toJson.render = .ok s :=
  (readAll_eq_ok_iff (isObjectText_render s)).mpr
    ⟨fit_of_chain (chain_writtenMembers hs), gives_of_chain (chain_writtenMembers hs) rfl⟩

/-! ### Accepted and refused texts -/

/-- Settings that are read are accepted if they are admissible. -/
theorem ofJson_of_read (h : record.read.readAll text = .ok s) :
    ofJson text = if s.Admissible then .ok s else .error .noLevels := by
  rw [ofJson, h]

/-- A text of which no settings are read is malformed, for the same reason. -/
theorem ofJson_of_not_read {e : Json.Error} (h : record.read.readAll text = .error e) :
    ofJson text = .error (.malformed e) := by
  rw [ofJson, h]

/-- Whatever the text, it is refused for allowing no levels only if settings were read of it. -/
theorem ofJson_refuses (text : String) : (∀ s, ofJson text = .ok s → s.Admissible) ∧
    (ofJson text = .error .noLevels ↔ ∃ s, record.read.readAll text = .ok s ∧ s.maxNesting = 0) ∧
    ∀ e, ofJson text = .error (.malformed e) ↔ record.read.readAll text = .error e := by
  cases hread : record.read.readAll text with
  | error e =>
    rw [ofJson_of_not_read hread]
    refine ⟨by simp, iff_of_false (by simp) (by simp), fun e' => ?_⟩
    rw [Except.error.injEq, SettingsError.malformed.injEq, Except.error.injEq]
  | ok s =>
    rw [ofJson_of_read hread]
    by_cases hadmissible : s.Admissible
    · have hne : s.maxNesting ≠ 0 := Nat.pos_iff_ne_zero.mp hadmissible
      rw [if_pos hadmissible]
      refine ⟨fun s' hs' => Except.ok.inj hs' ▸ hadmissible, iff_of_false (by simp) ?_, by simp⟩
      rintro ⟨s', hs', hzero⟩
      exact hne (Except.ok.inj hs' ▸ hzero)
    · rw [if_neg hadmissible]
      exact ⟨by simp, iff_of_true rfl ⟨s, rfl, Nat.eq_zero_of_not_pos hadmissible⟩, by simp⟩

/-- **Acceptance.**  An object is accepted exactly if each of its members has one of the two names, none
    occurs twice, and the values are a truth value and a whole number from `1` to `2^64 - 1`.  The settings have
    the values that are given, and the standard ones for the rest.  If the number is zero and nothing else is
    wrong, the settings allow no levels; any other refused object is malformed.  Whatever the text, accepted
    settings are admissible, and settings that are written are read back if they are. -/
theorem ofJson_accepts_exactly :
    (∀ (text : String) (ms : List Member), IsObjectText text.toList ms →
      ((∃ s, ofJson text = .ok s) ↔ Fit 1 ms) ∧
      (∀ s, ofJson text = .ok s → Gives ms s) ∧
      (ofJson text = .error .noLevels ↔
        Fit 0 ms ∧ ∃ m ∈ ms, m.Named "max_nesting" ∧ IsNatural m.item.value 0) ∧
      ((∃ e, ofJson text = .error (.malformed e)) ↔ ¬Fit 0 ms)) ∧
    (∀ text, (∀ s, ofJson text = .ok s → s.Admissible) ∧
      (ofJson text = .error .noLevels ↔ ∃ s, record.read.readAll text = .ok s ∧ s.maxNesting = 0) ∧
      ∀ e, ofJson text = .error (.malformed e) ↔ record.read.readAll text = .error e) ∧
    ∀ s : Settings, s.maxNesting < 2 ^ (64 : Nat) →
      ofJson s.toJson.render = if 1 ≤ s.maxNesting then .ok s else .error .noLevels := by
  refine ⟨fun text ms h => ?_, ofJson_refuses, fun s hs => ofJson_of_read (readAll_render hs)⟩
  by_cases hfit : Fit 0 ms
  · obtain ⟨s, hs⟩ := hfit.exists_gives
    have hjson := ofJson_of_read ((readAll_eq_ok_iff h).mpr ⟨hfit, hs⟩)
    by_cases hadmissible : s.Admissible
    · rw [if_pos hadmissible] at hjson
      refine ⟨iff_of_true ⟨s, hjson⟩ ((hs.admissible_iff hfit).mp hadmissible), fun s' hs' => ?_,
        iff_of_false (by simp [hjson]) ?_, iff_of_false (by simp [hjson]) (not_not_intro hfit)⟩
      · obtain rfl := Except.ok.inj (hjson.symm.trans hs')
        exact hs
      · rintro ⟨-, m, hm, hname, hzero⟩
        have heq : s.maxNesting = 0 := (hs.maxNesting m hm hname).2.symm.trans hzero.2
        exact absurd heq (Nat.pos_iff_ne_zero.mp hadmissible)
    · rw [if_neg hadmissible] at hjson
      have hzero : s.maxNesting = 0 := Nat.eq_zero_of_not_pos hadmissible
      have hmember := hs.exists_named_maxNesting (by rw [hzero]; decide)
      rw [hzero] at hmember
      have hone : ¬Fit 1 ms := fun hone => hadmissible ((hs.admissible_iff hfit).mpr hone)
      exact ⟨iff_of_false (by simp [hjson]) hone, by simp [hjson], iff_of_true hjson ⟨hfit, hmember⟩,
        iff_of_false (by simp [hjson]) (not_not_intro hfit)⟩
  · obtain ⟨e, hread⟩ : ∃ e, record.read.readAll text = .error e := by
      cases hread : record.read.readAll text with
      | error e => exact ⟨e, rfl⟩
      | ok s => exact absurd ((readAll_eq_ok_iff h).mp hread).1 hfit
    have hjson := ofJson_of_not_read hread
    exact ⟨iff_of_false (by simp [hjson]) fun hone => hfit hone.zero, by simp [hjson],
      iff_of_false (by simp [hjson]) fun hzero => hfit hzero.1, iff_of_true ⟨e, hjson⟩ hfit⟩

theorem isBody_and_spells_respelled :
    IsBody (['\\', 'u', '0', '0', '6', 'd'] ++ "ax_nesting".toList) ∧
      Spells (['\\', 'u', '0', '0', '6', 'd'] ++ "ax_nesting".toList) "max_nesting".toList := by
  have hunit : Json.Literal.hexFour? ['0', '0', '6', 'd'] = some 0x6d := rfl
  have hname : "max_nesting".toList = Char.ofNat 0x6d :: "ax_nesting".toList := rfl
  obtain ⟨hbody, hspells⟩ := @isBody_and_spells_self "ax_nesting".toList (by simp)
  rw [hname]
  exact ⟨.cons (.unit hunit) hbody, .cons (.unit hunit rfl rfl) hspells⟩

/-- Members in another order, with blanks between their parts and a name that is not spelled letter by
    letter. -/
def respelledMembers : List Member :=
  let space : Gap := ⟨[' '], List.forall_mem_singleton.mpr rfl⟩
  [⟨space, ['\\', 'u', '0', '0', '6', 'd'] ++ "ax_nesting".toList, isBody_and_spells_respelled.1, space,
      ⟨space, ['7'], .none⟩⟩,
    ⟨space, "skip_blank_lines".toList, isBody_and_spells_skipBlankLines.1, .none,
      ⟨.none, "false".toList, space⟩⟩]

/-- Such members are accepted too. -/
theorem ofJson_accepts_exactly_respelled :
    IsObjectText "\x7b \"\\u006dax_nesting\" : 7, \"skip_blank_lines\":false \x7d ".toList respelledMembers ∧
    Fit 1 respelledMembers ∧
    ofJson "\x7b \"\\u006dax_nesting\" : 7, \"skip_blank_lines\":false \x7d " = .ok ⟨false, 7⟩ ∧
    ofJson (toJson ⟨true, 0⟩).render = .error .noLevels := by
  have hseven : IsNatural ['7'] 7 := isNatural_toString 7
  have htext : IsObjectText
      "\x7b \"\\u006dax_nesting\" : 7, \"skip_blank_lines\":false \x7d ".toList respelledMembers := by
    refine ⟨?_, .none, .none, ⟨[' '], List.forall_mem_singleton.mpr rfl⟩, ?_⟩
    · rw [respelledMembers, List.forall_mem_cons, List.forall_mem_singleton]
      exact ⟨.number hseven.isNumber, .bool false⟩
    · simp [respelledMembers, Json.Grammar.bracketed, Gap.none, Member.text, Item.text, List.intercalate,
        Json.Bracket.opening, Json.Bracket.closing]
  have hchain : Chain Adds respelledMembers record.start ⟨some false, some 7⟩ :=
    .cons (.maxNesting isBody_and_spells_respelled.2 rfl ⟨hseven, by decide⟩)
      (.cons (.skipBlankLines isBody_and_spells_skipBlankLines.2 rfl rfl) .nil)
  have hgives : Gives respelledMembers ⟨false, 7⟩ := gives_of_chain hchain rfl
  have hfit : Fit 1 respelledMembers := (hgives.admissible_iff (fit_of_chain hchain)).mp (by decide)
  obtain ⟨haccepted, hgiven, -⟩ := ofJson_accepts_exactly.1 _ _ htext
  obtain ⟨s, hs⟩ := haccepted.mpr hfit
  obtain rfl := (hgiven s hs).unique hgives
  exact ⟨htext, hfit, hs, ofJson_accepts_exactly.2.2 ⟨true, 0⟩ (by decide)⟩

end ExprForest.Settings

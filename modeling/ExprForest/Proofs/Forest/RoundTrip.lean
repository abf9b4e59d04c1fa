import ExprForest.Forest.Json
import ExprForest.Proofs.Tree.RoundTrip

namespace ExprForest.Forest

/-!
# Forests are read back from JSON

The array around the trees takes one of the brackets that may nest.

* `itemsRun_trees` — the trees of a forest, one after another;
* `ofJson_eq_ok_iff` — the text of a forest as a whole;
* `json_round_trip` — trees and forests are read back.
-/

open Json (Value Reader itemsText)
open Json.Reader (Yields ItemsRun)

variable {f : Forest}

/-- The text of a tree begins with a bracket. -/
theorem exists_toList_compact (t : Tree) : ∃ inner, t.toJson.compact.toList = '\x7b' :: inner := by
  rw [Tree.toJson_eq, Json.toList_compact_object]
  exact ⟨_, rfl⟩

/-- The trees of a forest are read one after another, up to one that is not read. -/
theorem itemsRun_trees (depth : Nat) {ts : List Tree} (h : ∀ t ∈ ts, t.ReadsBack) (first : Bool)
    (read : List Tree) (more : List Char) :
    ItemsRun (Tree.reader depth) first read (itemsText first (ts.map Tree.toJson) ++ ']' :: more)
      (if ∀ t ∈ ts, t.AllFinite ∧ t.height ≤ depth then some (read.reverse ++ ts, ']' :: more)
        else none) := by
  induction ts generalizing first read with
  | nil =>
    rw [if_pos nofun, List.append_nil]
    exact .done
  | cons t ts ih =>
    rw [List.forall_mem_cons] at h
    simp only [List.forall_mem_cons]
    obtain ⟨inner, hinner⟩ := exists_toList_compact t
    have htree := h.1.yields_reader depth (itemsText false (ts.map Tree.toJson) ++ ']' :: more)
    rw [List.map_cons, itemsText, List.append_assoc, List.append_assoc]
    rw [hinner, List.cons_append] at htree ⊢
    by_cases hfits : t.AllFinite ∧ t.height ≤ depth
    · rw [if_pos hfits] at htree
      have hothers := ih h.2 false (t :: read)
      simp only [List.reverse_cons, List.append_assoc, List.singleton_append] at hothers
      simp only [hfits, and_self, true_and]
      exact .next rfl (by decide) htree (by simp) hothers
    · rw [if_neg hfits] at htree
      rw [if_neg (fun hall => hfits hall.1)]
      exact .refused rfl (by decide) htree

/-- The text of a forest as a whole. -/
theorem ofJson_eq_ok_iff (h : ∀ t ∈ f.trees, t.ReadsBack) (g : Forest) :
    ofJson f.toJson.render = .ok g ↔
      g = f ∧ ∀ t ∈ f.trees, t.AllFinite ∧ t.height ≤ Json.levels - 1 := by
  have hitems := (itemsRun_trees (Json.levels - 1) h true [] []).yields
  have htext : f.toJson.compact.toList = '[' :: (itemsText true (f.trees.map Tree.toJson) ++ [']']) := by
    rw [toJson, Json.toList_compact_array]
  have hread : Yields reader f.toJson.render.toList
      (if ∀ t ∈ f.trees, t.AllFinite ∧ t.height ≤ Json.levels - 1 then some (f, []) else none) := by
    rw [Value.render_eq_compact, htext]
    unfold reader
    refine Yields.peeked ?_ rfl
    by_cases hall : ∀ t ∈ f.trees, t.AllFinite ∧ t.height ≤ Json.levels - 1
    · rw [if_pos hall] at hitems ⊢
      exact (Yields.deeper (Yields.enclosed (b := .square) hitems)).bind (Json.Reader.yields_pure f [])
    · rw [if_neg hall] at hitems ⊢
      exact (Yields.deeper hitems.enclosed_none).bind_none
  exact hread.readAll_eq_ok_iff g

/-- **Round trip.**  A tree whose finite numbers are read back from their own texts is read back from its
    JSON text just if all its numbers are finite and it has at most `127` levels, and it is read back as it
    is.  A forest of such trees is read back in the same way, where the trees have at most `126` levels. -/
theorem json_round_trip :
    (∀ t : Tree, t.ReadsBack → ∀ u,
      Tree.ofJson t.toJson.render = .ok u ↔ u = t ∧ t.AllFinite ∧ t.countLevels ≤ 127) ∧
    ∀ f : Forest, (∀ t ∈ f.trees, t.ReadsBack) → ∀ g,
      ofJson f.toJson.render = .ok g ↔
        g = f ∧ ∀ t ∈ f.trees, t.AllFinite ∧ t.countLevels ≤ 126 := by
  simp only [Tree.countLevels_eq_height]
  constructor
  · intro t h u
    exact h.ofJson_eq_ok_iff u
  · intro f h g
    exact ofJson_eq_ok_iff h g

/-- The trees of `f = -0.0` and `1.5` are read back, and so is their forest. -/
theorem json_round_trip_assign :
    Tree.ofJson (Tree.number 1.5).toJson.render = .ok (.number 1.5) ∧
      ofJson (Forest.mk [.node .assign (.identifier "f") (.number (-0.0)), .number 1.5]).toJson.render =
        .ok ⟨[.node .assign (.identifier "f") (.number (-0.0)), .number 1.5]⟩ := by
  constructor
  · exact (json_round_trip.1 (.number 1.5) (by decide +kernel) _).mpr ⟨rfl, by decide +kernel⟩
  · exact (json_round_trip.2 ⟨[.node .assign (.identifier "f") (.number (-0.0)), .number 1.5]⟩
      (by decide +kernel) _).mpr ⟨rfl, by decide +kernel⟩

end ExprForest.Forest

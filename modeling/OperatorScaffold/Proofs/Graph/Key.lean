import Mathlib.Data.Prod.Lex
import Mathlib.Data.String.Basic
import OperatorScaffold.Graph.Basic
/-!
The order of the keys is linear, and places that are put in by their keys stay sorted.
-/

namespace OperatorScaffold.ResourceGraph

open scoped List

def Key.rank (k : Key) : String ×ₗ String ×ₗ String ×ₗ Nat :=
  toLex (k.kind, toLex (k.group, toLex (k.version, k.place)))

theorem Key.before_iff {a b : Key} : a.before b ↔ a.rank < b.rank := by
  simp only [before, rank, Prod.Lex.toLex_lt_toLex]
  grind

theorem Key.rank_injective : Function.Injective Key.rank := by
  intro a b h
  obtain ⟨⟩ := a
  obtain ⟨⟩ := b
  simpa [rank] using h

variable {g : ResourceGraph} {i j : Nat} {is : List Nat}

@[simp] theorem place_key (i : Nat) : (g.key i).place = i := by
  unfold key
  split <;> rfl

/-- The places in the order of their keys. -/
def Precedes (g : ResourceGraph) (i j : Nat) : Prop := (g.key i).rank < (g.key j).rank

theorem precedes_of_not_before (hij : i ≠ j) (h : ¬(g.key i).before (g.key j)) : g.Precedes j i := by
  rw [Key.before_iff, not_lt] at h
  refine lt_of_le_of_ne h fun e => hij ?_
  rw [← place_key (g := g) i, ← place_key (g := g) j, Key.rank_injective e]

theorem perm_insertByKey (i : Nat) (is : List Nat) : g.insertByKey i is ~ i :: is := by
  induction is with
  | nil => exact .refl _
  | cons j js ih =>
    rw [insertByKey]
    split
    · exact .refl _
    · exact (ih.cons j).trans (.swap i j js)

theorem perm_sortByKey (is : List Nat) : g.sortByKey is ~ is := by
  induction is with
  | nil => exact .refl _
  | cons i is ih => exact (perm_insertByKey i _).trans (ih.cons i)

theorem mem_sortByKey : i ∈ g.sortByKey is ↔ i ∈ is := (perm_sortByKey is).mem_iff

theorem pairwise_insertByKey (hi : i ∉ is) (h : is.Pairwise g.Precedes) :
    (g.insertByKey i is).Pairwise g.Precedes := by
  induction is with
  | nil => exact List.pairwise_singleton _ _
  | cons j js ih =>
    obtain ⟨hij, hi⟩ := not_or.1 (List.mem_cons.not.1 hi)
    obtain ⟨hj, hjs⟩ := List.pairwise_cons.1 h
    rw [insertByKey]
    split
    next hb =>
      have hlt : g.Precedes i j := Key.before_iff.1 hb
      exact List.pairwise_cons.2 ⟨List.forall_mem_cons.2 ⟨hlt, fun k hk => lt_trans hlt (hj k hk)⟩, h⟩
    next hb =>
      refine List.pairwise_cons.2 ⟨fun k hk => ?_, ih hi hjs⟩
      obtain rfl | hk := List.mem_cons.1 ((perm_insertByKey i js).mem_iff.1 hk)
      · exact precedes_of_not_before hij hb
      · exact hj k hk

theorem pairwise_sortByKey (h : is.Nodup) : (g.sortByKey is).Pairwise g.Precedes := by
  induction is with
  | nil => exact .nil
  | cons i is ih =>
    obtain ⟨hi, his⟩ := List.nodup_cons.1 h
    exact pairwise_insertByKey (fun hm => hi (mem_sortByKey.1 hm)) (ih his)

end OperatorScaffold.ResourceGraph

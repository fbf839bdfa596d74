import Mathlib.Data.Fintype.EquivFin
import OperatorScaffold.Proofs.Graph.Order
/-!
What the order of generation leaves out: the run comes to its end, and places from which a cycle can be
reached are all that is missing.
-/

namespace OperatorScaffold.ResourceGraph

open Relation (TransGen ReflTransGen)
open scoped List

variable {g : ResourceGraph} {p : Progress} {i j : Nat} {is pre post : List Nat}

namespace Progress

theorem emitted_step (hr : p.ready = i :: is) : (p.step g).emitted = p.emitted ++ [i] := by
  have hd : (g.dependentsOf i).Nodup := List.nodup_range.filter _
  rw [step, hr]
  exact (released_foldl hd).emitted

theorem run_of_ready_eq_nil (hr : p.ready = []) (n : Nat) : p.run g n = p := by
  have hstep : p.step g = p := by rw [step, hr]
  induction n with
  | zero => rfl
  | succ n ih => rw [run, hstep, ih]

theorem emitted_prefix_run (n : Nat) : p.emitted <+: (p.run g n).emitted := by
  induction n generalizing p with
  | zero => exact List.prefix_rfl
  | succ n ih =>
    cases hr : p.ready with
    | nil =>
      rw [run_of_ready_eq_nil hr]
    | cons i is =>
      refine List.IsPrefix.trans ?_ ih
      rw [emitted_step hr]
      exact List.prefix_append _ _

/-- Whatever a run emits stood first among what was ready. -/
theorem exists_run_of_emitted {n : Nat} (h : (p.run g n).emitted = pre ++ i :: post)
    (hp : p.emitted.length ≤ pre.length) :
    ∃ m rest, (p.run g m).emitted = pre ∧ (p.run g m).ready = i :: rest := by
  induction n generalizing p with
  | zero =>
    have hlen : p.emitted.length = pre.length + (post.length + 1) := by
      rw [show p.emitted = pre ++ i :: post from h, List.length_append, List.length_cons]
    omega
  | succ n ih =>
    cases hr : p.ready with
    | nil =>
      rw [run_of_ready_eq_nil hr] at h
      have hlen := congrArg List.length h
      simp at hlen
      omega
    | cons j rest =>
      have he := emitted_step (g := g) hr
      by_cases hlt : p.emitted.length < pre.length
      · obtain ⟨m, rest, hm⟩ := ih (p := p.step g) h (by rw [he, List.length_append]; exact hlt)
        exact ⟨m + 1, rest, hm⟩
      · have hpre : p.emitted ++ [j] <+: pre ++ i :: post := by
          rw [← he, ← h]
          exact emitted_prefix_run n
        have hlen : p.emitted.length = pre.length := by omega
        obtain ⟨tail, ht⟩ := hpre
        rw [List.append_assoc] at ht
        obtain ⟨hemitted, ht⟩ := List.append_inj ht hlen
        obtain rfl : j = i := (List.cons.inj ht).1
        exact ⟨0, rest, hemitted, hr⟩

end Progress

theorem Sound.ready_eq_nil (hs : Sound g p) (h : g.size ≤ p.emitted.length) : p.ready = [] := by
  have hsub : p.emitted ⊆ List.range g.size := fun i hi => List.mem_range.2 (hs.below i hi)
  have hperm : p.emitted ~ List.range g.size :=
    (List.subperm_of_subset hs.nodup hsub).perm_of_length_le (by rwa [List.length_range])
  refine List.eq_nil_iff_forall_not_mem.2 fun i hi => ?_
  obtain ⟨hlt, hn, -⟩ := (hs.ready i).1 hi
  exact hn (hperm.mem_iff.2 (List.mem_range.2 hlt))

theorem ready_run (hg : ∀ i, (g.targetsOf i).Nodup) (hs : Sound g p) {n : Nat}
    (h : g.size ≤ p.emitted.length + n) : (p.run g n).ready = [] := by
  induction n generalizing p with
  | zero => exact hs.ready_eq_nil h
  | succ n ih =>
    cases hr : p.ready with
    | nil => rwa [Progress.run_of_ready_eq_nil hr]
    | cons i is =>
      refine ih (hs.step hg) ?_
      rw [Progress.emitted_step hr, List.length_append, List.length_singleton]
      omega

/-- A graph whose targets are listed once, place by place. -/
structure Linked (g : ResourceGraph) : Prop where
  length : g.targets.length = g.size
  nodup : ∀ i, (g.targetsOf i).Nodup
  range : g.InRange

theorem Linked.sound (h : g.Linked) (n : Nat) : Sound g ((Progress.start g).run g n) :=
  sound_run h.nodup (sound_start h.length) n

theorem Linked.ready_eq_nil (h : g.Linked) : ((Progress.start g).run g g.size).ready = [] :=
  ready_run h.nodup (sound_start h.length) (Nat.le_add_left _ _)

theorem ready_of_orderedPlaces (ho : g.orderedPlaces = pre ++ i :: post) :
    ∃ m rest, ((Progress.start g).run g m).emitted = pre ∧
      ((Progress.start g).run g m).ready = i :: rest :=
  Progress.exists_run_of_emitted ho (Nat.zero_le _)

theorem Linked.targets_before (h : g.Linked) (ho : g.orderedPlaces = pre ++ i :: post)
    (hij : g.DependsOn i j) : j ∈ pre := by
  obtain ⟨m, rest, hpre, hr⟩ := ready_of_orderedPlaces ho
  exact hpre ▸ ((h.sound m).emits hr).2.2 j hij

theorem Linked.before_of_transGen (h : g.Linked) (ho : g.orderedPlaces = pre ++ i :: post)
    (hij : TransGen g.DependsOn i j) : j ∈ pre := by
  induction hij with
  | single hij => exact h.targets_before ho hij
  | tail _ hjk ih =>
    obtain ⟨front, back, rfl⟩ := List.append_of_mem ih
    rw [List.append_assoc] at ho
    exact List.mem_append_left _ (h.targets_before ho hjk)

theorem Linked.not_transGen_self (h : g.Linked) (hi : i ∈ g.orderedPlaces) :
    ¬TransGen g.DependsOn i i := by
  intro hii
  obtain ⟨pre, post, ho⟩ := List.append_of_mem hi
  have hn : (pre ++ i :: post).Nodup := ho ▸ (sound_orderedPlaces h.length h.nodup).1
  exact (List.nodup_append.1 hn).2.2 i (h.before_of_transGen ho hii) i List.mem_cons_self rfl

theorem Linked.mem_of_reaches (h : g.Linked) (hi : i ∈ g.orderedPlaces)
    (hij : ReflTransGen g.DependsOn i j) : j ∈ g.orderedPlaces := by
  obtain rfl | hij := Relation.reflTransGen_iff_eq_or_transGen.1 hij
  · exact hi
  · obtain ⟨pre, post, ho⟩ := List.append_of_mem hi
    exact ho ▸ List.mem_append_left _ (h.before_of_transGen ho hij)

/-- A place from which no cycle can be reached is emitted: all it depends on is, by induction along the
edges, and at the end nothing is left that is ready. -/
theorem Linked.mem_of_acyclic (h : g.Linked) (hi : i < g.size)
    (ha : ∀ j, ReflTransGen g.DependsOn i j → ¬TransGen g.DependsOn j j) : i ∈ g.orderedPlaces := by
  let r (a b : {j : Fin g.size // ReflTransGen g.DependsOn i j}) : Prop := TransGen g.DependsOn b.1 a.1
  have : IsTrans _ r := ⟨fun _ _ _ hab hbc => hbc.trans hab⟩
  have : Std.Irrefl r := ⟨fun a haa => ha _ a.2 haa⟩
  have hw : WellFounded r := Finite.wellFounded_of_trans_of_irrefl r
  suffices hall : ∀ a : {j : Fin g.size // ReflTransGen g.DependsOn i j}, a.1.1 ∈ g.orderedPlaces from
    hall ⟨⟨i, hi⟩, .refl⟩
  intro a
  induction a using hw.induction with
  | _ a ih =>
    refine Decidable.byContradiction fun hn => ?_
    have hready := ((h.sound g.size).ready a.1).2 ⟨a.1.2, hn, fun j hj => ?_⟩
    · rw [h.ready_eq_nil] at hready
      cases hready
    · exact ih ⟨⟨j, (h.range _ _ hj).2⟩, a.2.tail hj⟩ (.single hj)

theorem Linked.mem_orderedPlaces_iff (h : g.Linked) : i ∈ g.orderedPlaces ↔
    i < g.size ∧ ∀ j, ReflTransGen g.DependsOn i j → ¬TransGen g.DependsOn j j := by
  constructor
  · intro hi
    exact ⟨(sound_orderedPlaces h.length h.nodup).2 i hi,
      fun j hij => h.not_transGen_self (h.mem_of_reaches hi hij)⟩
  · exact fun ⟨hi, ha⟩ => h.mem_of_acyclic hi ha

theorem Linked.forall_mem_orderedPlaces_iff (h : g.Linked) :
    (∀ i < g.size, i ∈ g.orderedPlaces) ↔ ∀ i, ¬TransGen g.DependsOn i i := by
  constructor
  · intro hall i hi
    obtain ⟨j, hij, -⟩ := TransGen.head'_iff.1 hi
    exact h.not_transGen_self (hall i (h.range i j hij).1) hi
  · exact fun ha i hi => h.mem_of_acyclic hi fun j _ => ha j

theorem perm_ordered_iff (h : g.Linked) (hn : g.resources.Nodup) :
    g.ordered ~ g.resources ↔ ∀ i < g.size, i ∈ g.orderedPlaces := by
  have at_place {i : Nat} (hi : i < g.size) : g.resources[i]? = some g.resources[i] :=
    List.getElem?_eq_getElem hi
  constructor
  · intro hp i hi
    have hr : g.resources[i] ∈ g.ordered := hp.mem_iff.2 (List.getElem_mem hi)
    exact (mem_filterMap_places hn (at_place hi)).1 hr
  · intro hall
    refine (List.perm_ext_iff_of_nodup (nodup_ordered h.length h.nodup hn) hn).2 fun r => ?_
    refine ⟨mem_resources_of_mem_ordered, fun hr => ?_⟩
    obtain ⟨i, hi, rfl⟩ := List.getElem_of_mem hr
    exact (mem_filterMap_places hn (at_place hi)).2 (hall i hi)

end OperatorScaffold.ResourceGraph

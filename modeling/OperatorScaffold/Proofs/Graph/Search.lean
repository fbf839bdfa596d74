import Mathlib
import OperatorScaffold.Graph.Cycle
import OperatorScaffold.Proofs.Failure
import OperatorScaffold.Proofs.Graph.Key
/-!
The search for a cycle, step by step: what holds wherever it stands, and how many steps it takes to
come to its end.
-/

namespace OperatorScaffold.ResourceGraph

open Relation (TransGen ReflTransGen)

variable {g : ResourceGraph}

/-- Edges lead from places of the graph to places of the graph. -/
def InRange (g : ResourceGraph) : Prop := ∀ i j, g.DependsOn i j → i < g.size ∧ j < g.size

/-- What is known of the places that the search has left while it stands at the end of `path`. -/
structure Settled (g : ResourceGraph) (path done : List Nat) : Prop where
  closed : ∀ i ∈ done, ∀ j, g.DependsOn i j → j ∈ done
  acyclic : ∀ i ∈ done, ¬TransGen g.DependsOn i i
  apart : ∀ i ∈ path, i ∉ done

theorem Settled.nil : Settled g [] [] := ⟨by simp, by simp, by simp⟩

theorem Settled.mem_of_reaches {path done : List Nat} (h : Settled g path done) {i j : Nat}
    (hi : i ∈ done) (hij : ReflTransGen g.DependsOn i j) : j ∈ done := by
  induction hij with
  | refl => exact hi
  | tail _ hjk ih => exact h.closed _ ih _ hjk

theorem Settled.leave {path done : List Nat} {i : Nat} (h : Settled g (i :: path) done)
    (hi : i ∉ path) (hd : ∀ j, g.DependsOn i j → j ∈ done) : Settled g path (i :: done) where
  closed := by
    intro k hk j hkj
    obtain rfl | hk := List.mem_cons.1 hk
    · exact List.mem_cons_of_mem _ (hd j hkj)
    · exact List.mem_cons_of_mem _ (h.closed k hk j hkj)
  acyclic := by
    intro k hk hkk
    obtain rfl | hk := List.mem_cons.1 hk
    · obtain ⟨j, hkj, hjk⟩ := TransGen.head'_iff.1 hkk
      exact h.apart k List.mem_cons_self (h.mem_of_reaches (hd j hkj) hjk)
    · exact h.acyclic k hk hkk
  apart := by
    intro k hk hm
    obtain rfl | hm := List.mem_cons.1 hm
    · exact hi hk
    · exact h.apart k (List.mem_cons_of_mem _ hk) hm

theorem Settled.enter {path done : List Nat} {i : Nat} (h : Settled g path done) (hi : i ∉ done) :
    Settled g (i :: path) done :=
  ⟨h.closed, h.acyclic, List.forall_mem_cons.2 ⟨hi, h.apart⟩⟩

/-- Targets of the places on a trail that are not to be looked at any more were left, or the search
is behind them. -/
def Covers (g : ResourceGraph) (done : List Nat) : List Nat → List (Nat × List Nat) → Prop
  | _, [] => True
  | nearer, (i, js) :: trail =>
    (∀ t ∈ g.targetsOf i, t ∈ js ∨ t ∈ done ∨ t ∈ nearer) ∧ Covers g done (i :: nearer) trail

theorem Covers.mono {done done' nearer nearer' : List Nat} {trail : List (Nat × List Nat)}
    (hsub : ∀ t, t ∈ done ∨ t ∈ nearer → t ∈ done' ∨ t ∈ nearer')
    (h : Covers g done nearer trail) : Covers g done' nearer' trail := by
  induction trail generalizing nearer nearer' with
  | nil => trivial
  | cons x trail ih =>
    obtain ⟨ht, h⟩ := h
    refine ⟨fun t hm => (ht t hm).imp_right (hsub t), ih (fun t hm => ?_) h⟩
    simp only [List.mem_cons] at hm ⊢
    obtain hm | rfl | hm := hm
    · exact (hsub t (.inl hm)).imp_right .inr
    · exact .inr (.inl rfl)
    · exact (hsub t (.inr hm)).imp_right .inr

namespace Search

variable {s s' : Search}

def Ended (s : Search) : Prop := s.roots = [] ∧ s.trail = []

/-- What a step comes to that closes no cycle. -/
inductive Steps (g : ResourceGraph) : Search → Search → Prop
  | pass {i roots done} : i ∈ done → Steps g ⟨i :: roots, [], done⟩ ⟨roots, [], done⟩
  | take {i roots done} : i ∉ done →
      Steps g ⟨i :: roots, [], done⟩ ⟨roots, [(i, g.targetsOf i)], done⟩
  | leave {i roots trail done} :
      Steps g ⟨roots, (i, []) :: trail, done⟩ ⟨roots, trail, i :: done⟩
  | skip {i j js roots trail done} : j ∈ done →
      Steps g ⟨roots, (i, j :: js) :: trail, done⟩ ⟨roots, (i, js) :: trail, done⟩
  | enter {i j js roots trail done} : j ∉ done → j ∉ i :: trail.map (·.1) →
      Steps g ⟨roots, (i, j :: js) :: trail, done⟩ ⟨roots, (j, g.targetsOf j) :: (i, js) :: trail, done⟩

theorem step_eq_ok (h : s.step g = .ok s') : s.Ended ∧ s' = s ∨ Steps g s s' := by
  obtain ⟨roots, trail, done⟩ := s
  unfold step at h
  split at h
  next ht hr =>
    cases ht
    cases hr
    exact .inl ⟨⟨rfl, rfl⟩, (Except.ok.inj h).symm⟩
  next ht hr =>
    cases ht
    cases hr
    obtain rfl := Except.ok.inj h
    rw [visit]
    split
    next hi => exact .inr (.pass hi)
    next hi => exact .inr (.take hi)
  next ht =>
    cases ht
    obtain rfl := Except.ok.inj h
    exact .inr .leave
  next ht =>
    cases ht
    split at h
    next => cases h
    next hj =>
      obtain rfl := Except.ok.inj h
      rw [visit]
      split
      next hd => exact .inr (.skip hd)
      next hd => exact .inr (.enter hd hj)

theorem step_eq_error {c : List Nat} (h : s.step g = .error c) : ∃ i j js trail,
    s.trail = (i, j :: js) :: trail ∧ j ∈ s.path ∧ c = closing j s.path := by
  unfold step at h
  split at h
  next => cases h
  next => cases h
  next => cases h
  next i j js trail ht =>
    split at h
    next hj => exact ⟨i, j, js, trail, ht, hj, (Except.error.inj h).symm⟩
    next => cases h

theorem run_of_ended (h : s.Ended) (n : Nat) : s.run g n = .ok s := by
  have hstep : s.step g = .ok s := by
    rw [step, h.1, h.2]
  induction n with
  | zero => rfl
  | succ n ih =>
    rw [run, hstep]
    exact ih

/-- What holds wherever the search stands. -/
structure Sound (g : ResourceGraph) (s : Search) : Prop where
  settled : Settled g s.path s.done
  nodup : s.path.Nodup
  below : ∀ i ∈ s.path, i < g.size
  chain : s.path.IsChain fun i j => g.DependsOn j i
  edges : ∀ x ∈ s.trail, ∀ t ∈ x.2, g.DependsOn x.1 t
  covers : Covers g s.done [] s.trail
  roots_below : ∀ i ∈ s.roots, i < g.size
  reached : ∀ i < g.size, i ∈ s.roots ∨ i ∈ s.path ∨ i ∈ s.done

namespace Sound

variable {i j : Nat} {roots js done : List Nat} {trail : List (Nat × List Nat)}

theorem pass (hs : Sound g ⟨i :: roots, [], done⟩) (hi : i ∈ done) :
    Sound g ⟨roots, [], done⟩ := by
  refine { hs with roots_below := (List.forall_mem_cons.1 hs.roots_below).2, reached := ?_ }
  intro k hk
  obtain h | h := hs.reached k hk
  · obtain rfl | h := List.mem_cons.1 h
    · exact .inr (.inr hi)
    · exact .inl h
  · exact .inr h

theorem take (hs : Sound g ⟨i :: roots, [], done⟩) (hi : i ∉ done) :
    Sound g ⟨roots, [(i, g.targetsOf i)], done⟩ where
  settled := hs.settled.enter hi
  nodup := List.nodup_singleton i
  below := List.forall_mem_singleton.2 (List.forall_mem_cons.1 hs.roots_below).1
  chain := .singleton i
  edges := List.forall_mem_singleton.2 fun _ ht => ht
  covers := ⟨fun _ ht => .inl ht, trivial⟩
  roots_below := (List.forall_mem_cons.1 hs.roots_below).2
  reached := by
    intro k hk
    obtain h | h := hs.reached k hk
    · obtain rfl | h := List.mem_cons.1 h
      · exact .inr (.inl List.mem_cons_self)
      · exact .inl h
    · exact .inr (.inr (h.resolve_left List.not_mem_nil))

theorem leave (hs : Sound g ⟨roots, (i, []) :: trail, done⟩) :
    Sound g ⟨roots, trail, i :: done⟩ := by
  have hi := List.nodup_cons.1 hs.nodup
  have ⟨hleft, hcovers⟩ := hs.covers
  refine {
    settled := hs.settled.leave hi.1 fun t ht => ?_
    nodup := hi.2
    below := (List.forall_mem_cons.1 hs.below).2
    chain := hs.chain.tail
    edges := (List.forall_mem_cons.1 hs.edges).2
    covers := hcovers.mono fun t ht => ?_
    roots_below := hs.roots_below
    reached := fun k hk => ?_ }
  · simpa using hleft t ht
  · simp only [List.mem_cons] at ht ⊢
    tauto
  · have := hs.reached k hk
    simp only [path, List.map_cons, List.mem_cons] at this ⊢
    tauto

theorem skip (hs : Sound g ⟨roots, (i, j :: js) :: trail, done⟩) (hj : j ∈ done) :
    Sound g ⟨roots, (i, js) :: trail, done⟩ := by
  have ⟨htop, hedges⟩ := List.forall_mem_cons.1 hs.edges
  have ⟨hleft, hcovers⟩ := hs.covers
  refine { hs with
    edges := List.forall_mem_cons.2 ⟨(List.forall_mem_cons.1 htop).2, hedges⟩
    covers := ⟨fun t ht => ?_, hcovers⟩ }
  have := hleft t ht
  simp only [List.mem_cons] at this
  obtain (rfl | h) | h := this
  · exact .inr (.inl hj)
  · exact .inl h
  · exact .inr h

theorem enter (hr : g.InRange) (hs : Sound g ⟨roots, (i, j :: js) :: trail, done⟩) (hj : j ∉ done)
    (hpath : j ∉ i :: trail.map (·.1)) :
    Sound g ⟨roots, (j, g.targetsOf j) :: (i, js) :: trail, done⟩ := by
  have ⟨htop, hedges⟩ := List.forall_mem_cons.1 hs.edges
  have ⟨hij, htop⟩ := List.forall_mem_cons.1 htop
  have ⟨hleft, hcovers⟩ := hs.covers
  refine {
    settled := hs.settled.enter hj
    nodup := List.nodup_cons.2 ⟨hpath, hs.nodup⟩
    below := List.forall_mem_cons.2 ⟨(hr i j hij).2, hs.below⟩
    chain := List.isChain_cons_cons.2 ⟨hij, hs.chain⟩
    edges := List.forall_mem_cons.2 ⟨fun t ht => ht, List.forall_mem_cons.2 ⟨htop, hedges⟩⟩
    covers := ⟨fun t ht => .inl ht, fun t ht => ?_, hcovers.mono fun t ht => ?_⟩
    roots_below := hs.roots_below
    reached := fun k hk => (hs.reached k hk).imp_right (.imp_left (List.mem_cons_of_mem j)) }
  -- the target is no longer looked at from `i`: the search stands at it now
  · have := hleft t ht
    simp only [List.mem_cons] at this ⊢
    tauto
  · simp only [List.mem_cons] at ht ⊢
    tauto

theorem step (hr : g.InRange) (hs : Sound g s) (h : Steps g s s') : Sound g s' := by
  cases h with
  | pass hi => exact hs.pass hi
  | take hi => exact hs.take hi
  | leave => exact hs.leave
  | skip hj => exact hs.skip hj
  | enter hj hpath => exact hs.enter hr hj hpath

end Sound

theorem sound_start : Sound g (start g) where
  settled := .nil
  nodup := .nil
  below := nofun
  chain := .nil
  edges := nofun
  covers := trivial
  roots_below _ hi := List.mem_range.1 (mem_sortByKey.1 hi)
  reached _ hi := .inl (mem_sortByKey.2 (List.mem_range.2 hi))

/-- The places that the search has not come to. -/
def unvisited (g : ResourceGraph) (s : Search) : Finset Nat :=
  (Finset.range g.size).filter fun i => i ∉ s.path ∧ i ∉ s.done

/-- The steps that are left when no cycle is closed. -/
def left (g : ResourceGraph) (s : Search) : Nat :=
  s.roots.length + (s.trail.map fun x => x.2.length + 1).sum +
    ∑ i ∈ s.unvisited g, ((g.targetsOf i).length + 1)

theorem sum_unvisited_enter {i : Nat} (h : i ∈ s.unvisited g) (roots js : List Nat) :
    ∑ k ∈ s.unvisited g, ((g.targetsOf k).length + 1) = (g.targetsOf i).length + 1 +
      ∑ k ∈ unvisited g ⟨roots, (i, js) :: s.trail, s.done⟩, ((g.targetsOf k).length + 1) := by
  rw [← Finset.add_sum_erase _ _ h]
  congr 2
  ext k
  simp only [unvisited, path, Finset.mem_erase, Finset.mem_filter, List.map_cons, List.mem_cons]
  grind

theorem left_step (hr : g.InRange) (hs : Sound g s) (h : Steps g s s') : s.left g = s'.left g + 1 := by
  -- A place comes with a step for each of its targets and one to leave it, counted before the search
  -- has come to it as well as after.
  cases h with
  | pass => simp [left, unvisited, path, Nat.add_right_comm]
  | @take i roots done hi =>
    have hi : i ∈ unvisited g ⟨i :: roots, [], done⟩ :=
      Finset.mem_filter.2 ⟨Finset.mem_range.2 (hs.roots_below i List.mem_cons_self), List.not_mem_nil, hi⟩
    simp only [left, sum_unvisited_enter hi roots (g.targetsOf i), List.length_cons,
      List.map_cons, List.map_nil, List.sum_cons, List.sum_nil]
    omega
  | @leave i roots trail done =>
    have hu : unvisited g ⟨roots, trail, i :: done⟩ = unvisited g ⟨roots, (i, []) :: trail, done⟩ := by
      ext k
      simp only [unvisited, path, Finset.mem_filter, List.map_cons, List.mem_cons]
      tauto
    simp only [left, hu, List.map_cons, List.sum_cons, List.length_nil]
    omega
  | @skip i j js roots trail done hj =>
    have hu : unvisited g ⟨roots, (i, js) :: trail, done⟩ =
        unvisited g ⟨roots, (i, j :: js) :: trail, done⟩ := rfl
    simp only [left, hu, List.map_cons, List.sum_cons, List.length_cons]
    omega
  | @enter i j js roots trail done hj hpath =>
    have hij := (hr i j (hs.edges _ List.mem_cons_self j List.mem_cons_self)).2
    have hj : j ∈ unvisited g ⟨roots, (i, j :: js) :: trail, done⟩ :=
      Finset.mem_filter.2 ⟨Finset.mem_range.2 hij, hpath, hj⟩
    have hu := sum_unvisited_enter hj roots (g.targetsOf j)
    have hu' : unvisited g ⟨roots, (j, g.targetsOf j) :: (i, j :: js) :: trail, done⟩ =
        unvisited g ⟨roots, (j, g.targetsOf j) :: (i, js) :: trail, done⟩ := rfl
    simp only [left, hu, hu', List.map_cons, List.sum_cons, List.length_cons]
    omega

theorem left_start : (start g).left g = g.effort := by
  have hu : (start g).unvisited g = (List.range g.size).toFinset := by
    ext i
    simp [unvisited, start, path]
  rw [left, hu, List.sum_toFinset _ List.nodup_range, effort, List.length_flatMap]
  simp only [List.sum_map_add, start, (perm_sortByKey _).length_eq, List.length_range, List.map_nil,
    List.sum_nil, List.map_const', List.sum_replicate, smul_eq_mul]
  omega

/-- A search that may go on as long as it takes comes to its end. -/
theorem ended_of_run (hr : g.InRange) (hs : Sound g s) {n : Nat} (hn : s.left g ≤ n)
    (h : s.run g n = .ok s') : Sound g s' ∧ s'.Ended := by
  -- on the steps that are granted, which are never fewer than those that are left
  induction n generalizing s with
  | zero =>
    obtain rfl := Except.ok.inj h
    obtain ⟨roots, trail, done⟩ := s
    have hl : left g ⟨roots, trail, done⟩ = 0 := Nat.le_zero.1 hn
    simp only [left, Nat.add_eq_zero_iff] at hl
    refine ⟨hs, List.length_eq_zero_iff.1 hl.1.1, ?_⟩
    cases trail with
    | nil => rfl
    | cons x trail => simp at hl
  | succ n ih =>
    obtain ⟨mid, hstep, hrest⟩ := bind_eq_ok.1 h
    obtain ⟨he, rfl⟩ | hstep := step_eq_ok hstep
    · rw [run_of_ended he] at hrest
      obtain rfl := Except.ok.inj hrest
      exact ⟨hs, he⟩
    · have hleft := left_step hr hs hstep
      exact ih (hs.step hr hstep) (by omega) hrest

theorem sound_of_run_eq_error (hr : g.InRange) (hs : Sound g s) {n : Nat} {c : List Nat}
    (h : s.run g n = .error c) : ∃ last, Sound g last ∧ last.step g = .error c := by
  induction n generalizing s with
  | zero => cases h
  | succ n ih =>
    obtain hend | ⟨mid, hstep, hrest⟩ := bind_eq_error.1 h
    · exact ⟨s, hs, hend⟩
    · obtain ⟨-, rfl⟩ | hstep := step_eq_ok hstep
      · exact ih hs hrest
      · exact ih (hs.step hr hstep) hrest

end Search

end OperatorScaffold.ResourceGraph

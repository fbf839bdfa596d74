import OperatorScaffold.Proofs.Graph.Search
/-!
The search for a cycle. It finds one if and only if there is one, and what it reports is a closed walk
along the edges that passes every other place once.
-/

namespace OperatorScaffold.ResourceGraph

open Relation (TransGen ReflTransGen)

variable {g : ResourceGraph}

/-- A closed walk along the edges; only the place at its ends comes twice. -/
structure IsCycle (g : ResourceGraph) (c : List Nat) : Prop where
  chain : c.IsChain g.DependsOn
  ends : ∃ i mid, c = i :: mid ++ [i]
  nodup : c.tail.Nodup

theorem closing_of_not_mem {i : Nat} {before : List Nat} (h : i ∉ before) (rest : List Nat) :
    closing i (before ++ i :: rest) = i :: before.reverse ++ [i] := by
  have hb : ∀ j ∈ before, decide (j ≠ i) = true := by
    rintro j hj
    exact decide_eq_true fun e => h (e ▸ hj)
  rw [closing, List.takeWhile_append_of_pos hb]
  simp

theorem isCycle_closing {path : List Nat} {i : Nat} (hn : path.Nodup)
    (hc : (i :: path).IsChain fun a b => g.DependsOn b a) (hi : i ∈ path) :
    g.IsCycle (closing i path) := by
  obtain ⟨before, rest, rfl, hb⟩ := List.eq_append_cons_of_mem hi
  rw [closing_of_not_mem hb]
  refine ⟨?_, ⟨i, _, rfl⟩, ?_⟩
  · have e : i :: before.reverse ++ [i] = (i :: before ++ [i]).reverse := by simp
    rw [e, List.isChain_reverse]
    exact hc.prefix ⟨rest, by simp⟩
  · have := hn.sublist (List.Sublist.append_left (List.cons_sublist_cons.2 (List.nil_sublist rest)) _)
    simpa [List.nodup_append, List.nodup_reverse] using this

theorem Search.Sound.isCycle {s : Search} {c : List Nat} (hs : Sound g s) (h : s.step g = .error c) :
    g.IsCycle c := by
  obtain ⟨i, j, js, trail, ht, hj, rfl⟩ := step_eq_error h
  have hij : g.DependsOn i j := hs.edges (i, j :: js) (ht ▸ List.mem_cons_self) j List.mem_cons_self
  refine isCycle_closing hs.nodup ?_ hj
  have hc := hs.chain
  rw [path, ht, List.map_cons] at hc ⊢
  exact List.isChain_cons_cons.2 ⟨hij, hc⟩

theorem transGen_of_isChain {α : Type} {R : α → α → Prop} {i j : α} {mid : List α}
    (h : (i :: mid ++ [j]).IsChain R) : TransGen R i j := by
  induction mid generalizing i with
  | nil => exact .single (List.isChain_cons_cons.1 h).1
  | cons k mid ih =>
    have ⟨hik, h⟩ := List.isChain_cons_cons.1 h
    exact .head hik (ih h)

theorem IsCycle.transGen {c : List Nat} (h : g.IsCycle c) : ∃ i, TransGen g.DependsOn i i := by
  obtain ⟨i, mid, rfl⟩ := h.ends
  exact ⟨i, transGen_of_isChain h.chain⟩

theorem InRange.lt_size (hr : g.InRange) {i : Nat} {c : List Nat}
    (h : (i :: c).IsChain g.DependsOn) : ∀ j ∈ c, j < g.size := by
  induction c generalizing i with
  | nil => simp
  | cons k c ih =>
    have ⟨hik, h⟩ := List.isChain_cons_cons.1 h
    exact List.forall_mem_cons.2 ⟨(hr i k hik).2, ih h⟩

/-- The search comes to an end: it closes a cycle, or it has left every place. -/
theorem search_spec (hr : g.InRange) : match (Search.start g).run g g.effort with
    | .error c => g.IsCycle c
    | .ok s => s.Ended ∧ Settled g [] s.done ∧ ∀ i < g.size, i ∈ s.done := by
  split
  next c h =>
    obtain ⟨last, hs, hstep⟩ := Search.sound_of_run_eq_error hr Search.sound_start h
    exact hs.isCycle hstep
  next s h =>
    obtain ⟨hs, hroots, htrail⟩ := Search.ended_of_run hr Search.sound_start Search.left_start.le h
    have hpath : s.path = [] := by rw [Search.path, htrail, List.map_nil]
    refine ⟨⟨hroots, htrail⟩, hpath ▸ hs.settled, fun i hi => ?_⟩
    have := hs.reached i hi
    simpa [hroots, hpath] using this

/-- The search reports nothing only where there is nothing to report. -/
theorem acyclic_of_cycle? (hr : g.InRange) (h : g.cycle? = none) (i : Nat) :
    ¬TransGen g.DependsOn i i := by
  have hspec := search_spec hr
  unfold cycle? at h
  split at h
  next => cases h
  next s hs =>
    rw [hs] at hspec
    obtain ⟨-, hsettled, hdone⟩ := hspec
    intro hi
    obtain ⟨j, hij, -⟩ := TransGen.head'_iff.1 hi
    exact hsettled.acyclic i (hdone i (hr i j hij).1) hi

theorem isCycle_of_cycle? (hr : g.InRange) {names : List String} (h : g.cycle? = some names) :
    ∃ c, g.IsCycle c ∧ names = c.map g.nameOf := by
  have hspec := search_spec hr
  unfold cycle? at h
  split at h
  next c hc =>
    rw [hc] at hspec
    exact ⟨c, hspec, (Option.some.inj h).symm⟩
  next => cases h

theorem cycle?_eq_none_iff (hr : g.InRange) :
    g.cycle? = none ↔ ∀ i, ¬TransGen g.DependsOn i i := by
  refine ⟨acyclic_of_cycle? hr, fun h => ?_⟩
  cases hc : g.cycle? with
  | none => rfl
  | some names =>
    obtain ⟨c, hc, -⟩ := isCycle_of_cycle? hr hc
    obtain ⟨i, hi⟩ := hc.transGen
    exact absurd hi (h i)

end OperatorScaffold.ResourceGraph

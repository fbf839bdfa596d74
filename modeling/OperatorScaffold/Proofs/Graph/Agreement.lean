import OperatorScaffold.Proofs.Graph.Completeness
/-!
The search for a cycle and the order of generation agree on every graph that is built: the order is
complete just where the search reports nothing, and leaves out what a cycle holds up.
-/

namespace OperatorScaffold

open Relation (TransGen ReflTransGen)
open ResourceGraph (ofWorkload)
open scoped List

variable {w : Workload} {g : ResourceGraph}

theorem ResourceGraph.linked_ofWorkload (w : Workload) : (ofWorkload w).Linked :=
  ⟨length_targets w, nodup_targetsOf w, inRange_ofWorkload⟩

theorem ResourceGraph.eq_ofWorkload_of_build (h : build w = .ok g) : g = ofWorkload w := by
  unfold build at h
  repeat obtain ⟨-, -, h⟩ := bind_eq_ok.1 h
  exact (Except.ok.inj h).symm

theorem Workload.validate_of_build (h : ResourceGraph.build w = .ok g) : w.validate =
    match g.cycle? with
    | some names => .error (.cyclicDependency names)
    | none => .ok g.ordered := by
  unfold validate
  rw [h]
  rfl

/-- A graph is built from the workloads that satisfy every rule but the last. -/
theorem rulesBelow_of_build (h : ResourceGraph.build w = .ok g) : RulesBelow w 7 := by
  have hv := Workload.validate_of_build h
  split at hv
  next names hc => exact ((decides_validate w).error _ hv).2
  next hc => exact fun rule _ => (decides_validate w).ok _ hv rule

theorem idxOf_nameOf (hn : w.names.Nodup) {i : Nat} (hi : i < (ofWorkload w).size) :
    w.names.idxOf ((ofWorkload w).nameOf i) = i := by
  obtain ⟨hl, hi⟩ := List.getElem?_eq_some_iff.1 (names_getElem? hi)
  rw [← hi]
  exact hn.idxOf_getElem i hl

theorem reaches_cycle_iff (hn : w.names.Nodup) (he : Rule.endpoints.Holds w) {i : Nat}
    (hi : i < (ofWorkload w).size) :
    (∃ j, ReflTransGen (ofWorkload w).DependsOn i j ∧ TransGen (ofWorkload w).DependsOn j j) ↔
      ∃ name, ReflTransGen w.DependsOn ((ofWorkload w).nameOf i) name ∧
        TransGen w.DependsOn name name := by
  constructor
  · rintro ⟨j, hij, hj⟩
    exact ⟨_, hij.lift (ofWorkload w).nameOf fun _ _ => DependsOn.names,
      hj.lift (ofWorkload w).nameOf fun _ _ => DependsOn.names⟩
  · rintro ⟨name, hin, hname⟩
    have hin : ReflTransGen (ofWorkload w).DependsOn (w.names.idxOf ((ofWorkload w).nameOf i)) _ :=
      hin.lift w.names.idxOf fun _ _ hab => hab.places he
    rw [idxOf_nameOf hn hi] at hin
    exact ⟨_, hin, hname.lift w.names.idxOf fun _ _ hab => hab.places he⟩

theorem not_mem_ordered_iff (hw : RulesBelow w 7) {r : Resource} (hr : r ∈ w.resources) :
    r ∉ (ofWorkload w).ordered ↔
      ∃ name, ReflTransGen w.DependsOn r.name name ∧ TransGen w.DependsOn name name := by
  have hn : w.names.Nodup := (hw .names (by decide)).1
  have he : Rule.endpoints.Holds w := hw .endpoints (by decide)
  obtain ⟨i, hi, rfl⟩ := List.getElem_of_mem hr
  have hget : w.resources[i]? = some w.resources[i] := List.getElem?_eq_getElem hi
  rw [← nameOf_ofWorkload hget, ← reaches_cycle_iff hn he hi, ResourceGraph.ordered,
    ResourceGraph.mem_filterMap_places (hn.of_map _) hget,
    (ResourceGraph.linked_ofWorkload w).mem_orderedPlaces_iff]
  simp [show i < (ofWorkload w).size from hi]

/-- What validation accepts is generated completely. -/
theorem Workload.perm_of_validate {order : List Resource} (h : w.validate = .ok order) :
    order ~ w.resources := by
  have hw := (decides_validate w).ok _ h
  obtain rfl := eq_ordered_of_validate h
  have hl := ResourceGraph.linked_ofWorkload w
  refine (ResourceGraph.perm_ordered_iff hl ((hw .names).1.of_map _)).2 ?_
  exact hl.forall_mem_orderedPlaces_iff.2 ((acyclic_ofWorkload_iff (hw .endpoints)).2 (hw .acyclic))

/-- One resource by itself is its own order. -/
theorem Workload.validate_of_singleton {r : Resource} (hr : w.resources = [r]) (h : w.validate.isOk) :
    w.validate = .ok [r] := by
  cases hv : w.validate with
  | error e =>
    rw [hv] at h
    cases h
  | ok order =>
    have hp := perm_of_validate hv
    rw [hr, List.perm_singleton] at hp
    rw [hp]

/-- An order is told by the names in it. -/
theorem Workload.validate_of_names {order : List Resource} (hw : ∀ r ∈ order, r ∈ w.resources)
    (h : w.validate.toOption.map (·.map (·.name)) = some (order.map (·.name))) : w.validate = .ok order := by
  cases hv : w.validate with
  | error e =>
    rw [hv] at h
    cases h
  | ok order' =>
    rw [hv] at h
    have hnames : order'.map (·.name) = order.map (·.name) := Option.some.inj h
    have hn : (w.resources.map (·.name)).Nodup := ((decides_validate w).ok _ hv .names).1
    have hlength : order'.length = order.length := by simpa using congrArg List.length hnames
    refine congrArg _ (List.ext_getElem hlength fun i hi' hi => ?_)
    have hw' := (nodup_of_validate hv).2 _ (List.getElem_mem hi')
    refine List.inj_on_of_nodup_map hn hw' (hw _ (List.getElem_mem hi)) ?_
    simpa [hi, hi'] using congrArg (·[i]?) hnames

/-- Search and order both come to their end on a graph that is built. The search reports nothing if and
only if the order is complete; what the order leaves out is what reaches a cycle, and what the search
reports is one. -/
theorem ResourceGraph.search_agrees_with_order (h : build w = .ok g) :
    (∀ s, (Search.start g).run g g.effort = .ok s → s.Ended) ∧
    ((Progress.start g).run g g.size).ready = [] ∧
    (g.cycle? = none ↔ g.ordered ~ w.resources) ∧
    (∀ r ∈ w.resources, r ∉ g.ordered ↔
      ∃ name, ReflTransGen w.DependsOn r.name name ∧ TransGen w.DependsOn name name) ∧
    ∀ names, g.cycle? = some names → w.validate = .error (.cyclicDependency names) ∧
      2 ≤ names.length ∧ names.head? = names.getLast? ∧ names.tail.Nodup ∧
      names.IsChain w.DependsOn := by
  have hw := rulesBelow_of_build h
  have hv := Workload.validate_of_build h
  have hn : w.names.Nodup := (hw .names (by decide)).1
  obtain rfl := eq_ofWorkload_of_build h
  have hl := linked_ofWorkload w
  refine ⟨fun s hs => ?_, hl.ready_eq_nil, ?_, fun r hr => not_mem_ordered_iff hw hr,
    fun names hc => ?_⟩
  · have hspec := search_spec hl.range
    rw [hs] at hspec
    exact hspec.1
  · rw [cycle?_eq_none_iff hl.range, ← hl.forall_mem_orderedPlaces_iff,
      ← perm_ordered_iff hl (hn.of_map _)]
    rfl
  · obtain ⟨hchain, ⟨name, mid, rfl⟩, htail⟩ := describes_cyclicDependency hn hc
    refine ⟨by rw [hv, hc], by simp, ?_, htail, hchain⟩
    rw [List.getLast?_concat]
    rfl

theorem search_agrees_with_order_of_one_behind_one_waiting_for_itself :
    let gate : Resource :=
      ⟨"gate", .component, "net", "v1", "Gate", "gates", true, [], [], [], none, false, "a.yaml"⟩
    let lamp : Resource :=
      ⟨"lamp", .component, "net", "v1", "Lamp", "lamps", true, [], [], [], none, false, "b.yaml"⟩
    let w : Workload := ⟨"w", "a.yaml", "r", ⟨"net", "v1", none, true⟩, [lamp, gate],
      [⟨"gate", "gate", "GateUp"⟩, ⟨"lamp", "gate", "GateUp"⟩]⟩
    ∃ g, ResourceGraph.build w = .ok g ∧ lamp ∉ g.ordered ∧ ∃ names, g.cycle? = some names ∧
      names.head? = names.getLast? := by
  intro gate lamp w
  have hb : (ResourceGraph.build w).toBool = true := by decide +kernel
  cases hg : ResourceGraph.build w with
  | error e =>
    rw [hg] at hb
    cases hb
  | ok g =>
    obtain ⟨-, -, hiff, hleft, hcycle⟩ := ResourceGraph.search_agrees_with_order hg
    have hlamp : lamp ∉ g.ordered :=
      (hleft lamp List.mem_cons_self).2 ⟨"gate", .single ⟨_, .tail _ (.head _), rfl, rfl⟩,
        .single ⟨_, .head _, rfl, rfl⟩⟩
    refine ⟨g, rfl, hlamp, ?_⟩
    cases hc : g.cycle? with
    | none => exact absurd ((hiff.1 hc).mem_iff.2 List.mem_cons_self) hlamp
    | some names => exact ⟨names, rfl, (hcycle names hc).2.2.1⟩

end OperatorScaffold

import OperatorScaffold.Proofs.Graph.Validation
/-!
The order of generation: what is emitted was ready, and a resource is ready when all it depends on has
been emitted.
-/

namespace OperatorScaffold

open scoped List

namespace ResourceGraph

variable {g : ResourceGraph} {p p' : Progress} {i : Nat} {is ds : List Nat}

/-- The places that have one target less to wait for, and what becomes ready by that. -/
structure Released (p p' : Progress) (ds : List Nat) : Prop where
  emitted : p'.emitted = p.emitted
  waiting : ∀ i, p'.waiting[i]? = if i ∈ ds then p.waiting[i]?.map (· - 1) else p.waiting[i]?
  ready : p'.ready ~ ds.filter (fun d => p.waiting.getD d 0 - 1 = 0) ++ p.ready

theorem released_foldl (hd : ds.Nodup) : Released p (ds.foldl (Progress.release g) p) ds := by
  induction ds generalizing p with
  | nil => exact ⟨rfl, by simp, .refl _⟩
  | cons d ds ih =>
    obtain ⟨hn, hd⟩ := List.nodup_cons.1 hd
    obtain ⟨he, hw, hr⟩ := ih (p := p.release g d) hd
    have keep {i : Nat} (h : d ≠ i) : (p.release g d).waiting[i]? = p.waiting[i]? :=
      List.getElem?_set_ne h
    refine ⟨he, fun i => ?_, hr.trans ?_⟩
    · rw [List.foldl_cons, hw]
      by_cases hid : d = i
      · subst hid
        rw [if_neg hn, if_pos List.mem_cons_self]
        simp only [Progress.release, List.getElem?_set_self']
        cases h : p.waiting[d]? <;> simp [h]
      · simp only [keep hid, List.mem_cons, Ne.symm hid, false_or]
    · have hf : ds.filter (fun e => (p.release g d).waiting.getD e 0 - 1 = 0) =
          ds.filter (fun e => p.waiting.getD e 0 - 1 = 0) := by
        refine List.filter_congr fun e he => ?_
        rw [List.getD_eq_getElem?_getD, keep fun h => hn (h ▸ he), ← List.getD_eq_getElem?_getD]
      rw [hf, List.filter_cons]
      by_cases hz : p.waiting.getD d 0 - 1 = 0
      · simp only [Progress.release, hz, if_true, decide_true]
        exact (List.perm_middle.symm.trans ((perm_insertByKey d p.ready).symm.append_left _)).symm
      · simp only [Progress.release, hz, if_false, decide_false]
        exact .refl _

/-- What holds whenever some places are emitted: the counts are right, and nothing is emitted or ready
before its targets. -/
structure Sound (g : ResourceGraph) (p : Progress) : Prop where
  waiting : ∀ i < g.size, p.waiting[i]? = some ((g.targetsOf i).countP (· ∉ p.emitted))
  ready : ∀ i, i ∈ p.ready ↔ i < g.size ∧ i ∉ p.emitted ∧ ∀ j ∈ g.targetsOf i, j ∈ p.emitted
  ready_nodup : p.ready.Nodup
  nodup : p.emitted.Nodup
  below : ∀ i ∈ p.emitted, i < g.size
  closed : ∀ i ∈ p.emitted, ∀ j ∈ g.targetsOf i, j ∈ p.emitted

theorem mem_dependentsOf {d : Nat} : d ∈ g.dependentsOf i ↔ d < g.size ∧ i ∈ g.targetsOf d := by
  simp [dependentsOf]

theorem countP_emit {emitted : List Nat} (hi : i ∉ emitted) (ts : List Nat) :
    ts.countP (· ∉ emitted) = ts.countP (· ∉ emitted ++ [i]) + ts.count i := by
  induction ts with
  | nil => rfl
  | cons t ts ih =>
    rw [List.countP_cons, List.countP_cons, List.count_cons, ih]
    by_cases e : t = i
    · simp [e, hi, Nat.add_assoc]
    · simp [e, Nat.add_right_comm]

theorem Sound.emits (hs : Sound g p) (hr : p.ready = i :: is) :
    i < g.size ∧ i ∉ p.emitted ∧ ∀ j ∈ g.targetsOf i, j ∈ p.emitted :=
  (hs.ready i).1 (hr ▸ List.mem_cons_self)

/-- A place that waits for the one to emit is neither ready nor emitted. -/
theorem Sound.late (hs : Sound g p) (hr : p.ready = i :: is) {d : Nat} (hd : i ∈ g.targetsOf d) :
    d ∉ p.emitted ++ [i] ∧ d ∉ p.ready := by
  obtain ⟨-, hi, ht⟩ := hs.emits hr
  constructor
  · intro h
    obtain h | h := List.mem_append.1 h
    · exact hi (hs.closed d h i hd)
    · exact hi (ht i (List.mem_singleton.1 h ▸ hd))
  · intro h
    exact hi (((hs.ready d).1 h).2.2 i hd)

theorem Sound.waiting_emit (hs : Sound g p) (hr : p.ready = i :: is) (hg : ∀ i, (g.targetsOf i).Nodup)
    {d : Nat} (hd : d < g.size) :
    (if d ∈ g.dependentsOf i then p.waiting[d]?.map (· - 1) else p.waiting[d]?) =
      some ((g.targetsOf d).countP (· ∉ p.emitted ++ [i])) := by
  rw [hs.waiting d hd, countP_emit (hs.emits hr).2.1]
  by_cases hid : i ∈ g.targetsOf d
  · simp [mem_dependentsOf, hd, hid, List.count_eq_one_of_mem (hg d) hid]
  · simp [mem_dependentsOf, hid, List.count_eq_zero.2 hid]

theorem Sound.ready_emit (hs : Sound g p) (hr : p.ready = i :: is) (hg : ∀ i, (g.targetsOf i).Nodup)
    (d : Nat) : d ∈ (g.dependentsOf i).filter (fun d => p.waiting.getD d 0 - 1 = 0) ++ is ↔
      d < g.size ∧ d ∉ p.emitted ++ [i] ∧ ∀ j ∈ g.targetsOf d, j ∈ p.emitted ++ [i] := by
  have hin := hs.ready_nodup
  rw [hr, List.nodup_cons] at hin
  have released (hd : d ∈ g.dependentsOf i) : p.waiting.getD d 0 - 1 = 0 ↔
      ∀ j ∈ g.targetsOf d, j ∈ p.emitted ++ [i] := by
    have h := hs.waiting_emit hr hg (mem_dependentsOf.1 hd).1
    rw [if_pos hd] at h
    obtain ⟨n, hn, he⟩ := Option.map_eq_some_iff.1 h
    rw [List.getD_eq_getElem?_getD, hn, Option.getD_some, he, List.countP_eq_zero]
    simp only [decide_eq_true_eq, Decidable.not_not]
  rw [List.mem_append, List.mem_filter, decide_eq_true_eq]
  constructor
  · rintro (⟨hd, hz⟩ | hd)
    · have ⟨hlt, hid⟩ := mem_dependentsOf.1 hd
      exact ⟨hlt, (hs.late hr hid).1, (released hd).1 hz⟩
    · obtain ⟨hlt, hn, ht⟩ := (hs.ready d).1 (hr ▸ List.mem_cons_of_mem i hd)
      refine ⟨hlt, fun h => ?_, fun j hj => List.mem_append_left _ (ht j hj)⟩
      obtain h | h := List.mem_append.1 h
      · exact hn h
      · exact hin.1 (List.mem_singleton.1 h ▸ hd)
  · rintro ⟨hlt, hn, ht⟩
    by_cases hid : i ∈ g.targetsOf d
    · have hd := mem_dependentsOf.2 ⟨hlt, hid⟩
      exact .inl ⟨hd, (released hd).2 ht⟩
    · have hd : d ∈ p.ready := by
        refine (hs.ready d).2 ⟨hlt, fun h => hn (List.mem_append_left _ h), fun j hj => ?_⟩
        obtain h | h := List.mem_append.1 (ht j hj)
        · exact h
        · exact absurd (List.mem_singleton.1 h ▸ hj) hid
      rw [hr] at hd
      exact .inr ((List.mem_cons.1 hd).resolve_left fun e => hn (by simp [e]))

theorem Sound.step (hs : Sound g p) (hg : ∀ i, (g.targetsOf i).Nodup) : Sound g (p.step g) := by
  unfold Progress.step
  split
  next => exact hs
  next i is hr =>
    have ⟨hlt, hi, ht⟩ := hs.emits hr
    have hd : (g.dependentsOf i).Nodup := List.nodup_range.filter _
    obtain ⟨he, hw, hp⟩ := released_foldl (g := g) (p := { p with ready := is, emitted := p.emitted ++ [i] }) hd
    constructor
    case waiting =>
      intro d hlt
      rw [hw, he]
      exact hs.waiting_emit hr hg hlt
    case ready =>
      intro d
      rw [hp.mem_iff, he]
      exact hs.ready_emit hr hg d
    case ready_nodup =>
      have hin := hs.ready_nodup
      rw [hr, List.nodup_cons] at hin
      refine hp.nodup_iff.2 (List.nodup_append.2 ⟨hd.filter _, hin.2, fun d hd d' hd' e => ?_⟩)
      -- What waits for `i` was not ready as long as `i` was not emitted.
      have hid := (mem_dependentsOf.1 (List.mem_filter.1 hd).1).2
      exact (hs.late hr hid).2 (hr ▸ List.mem_cons_of_mem i (e ▸ hd'))
    case nodup =>
      rw [he]
      change (p.emitted ++ [i]).Nodup
      rw [← List.concat_eq_append]
      exact hs.nodup.concat hi
    case below =>
      rw [he]
      exact List.forall_mem_append.2 ⟨hs.below, by simpa using hlt⟩
    case closed =>
      rw [he]
      refine List.forall_mem_append.2 ⟨fun d hd j hj => ?_, ?_⟩
      · exact List.mem_append_left _ (hs.closed d hd j hj)
      · simpa using fun j hj => Or.inl (ht j hj)

theorem sound_start (hg : g.targets.length = g.size) : Sound g (.start g) := by
  have waiting {i : Nat} (hi : i < g.size) :
      (g.targets.map (·.length))[i]? = some (g.targetsOf i).length := by
    rw [← hg] at hi
    simp [targetsOf, hi]
  constructor
  case waiting =>
    intro i hi
    simpa [Progress.start, List.countP_eq_length_filter] using waiting hi
  case ready =>
    intro i
    rw [Progress.start, mem_sortByKey, List.mem_filter, List.mem_range, decide_eq_true_eq]
    refine and_congr_right fun hi => ?_
    rw [waiting hi]
    simp [List.eq_nil_iff_forall_not_mem]
  case ready_nodup => exact (perm_sortByKey _).nodup_iff.2 (List.nodup_range.filter _)
  case nodup => exact List.nodup_nil
  case below => exact nofun
  case closed => exact nofun

theorem sound_run (hg : ∀ i, (g.targetsOf i).Nodup) (hs : Sound g p) (n : Nat) : Sound g (p.run g n) := by
  induction n generalizing p with
  | zero => exact hs
  | succ n ih => exact ih (hs.step hg)

theorem sound_orderedPlaces (hl : g.targets.length = g.size) (hg : ∀ i, (g.targetsOf i).Nodup) :
    g.orderedPlaces.Nodup ∧ ∀ i ∈ g.orderedPlaces, i < g.size := by
  have h := sound_run hg (sound_start hl) g.size
  exact ⟨h.nodup, h.below⟩

theorem mem_filterMap_places {r : Resource} (hn : g.resources.Nodup) (hi : g.resources[i]? = some r) :
    r ∈ is.filterMap (g.resources[·]?) ↔ i ∈ is := by
  constructor
  · intro hr
    obtain ⟨j, hj, hr⟩ := List.mem_filterMap.1 hr
    obtain rfl := (List.getElem?_inj (List.getElem?_eq_some_iff.1 hi).1 hn).1 (hi.trans hr.symm)
    exact hj
  · exact fun h => List.mem_filterMap.2 ⟨i, h, hi⟩

theorem mem_resources_of_mem_ordered {r : Resource} (h : r ∈ g.ordered) : r ∈ g.resources := by
  obtain ⟨i, -, hi⟩ := List.mem_filterMap.1 h
  exact List.mem_of_getElem? hi

theorem nodup_ordered (hl : g.targets.length = g.size) (hg : ∀ i, (g.targetsOf i).Nodup)
    (hn : g.resources.Nodup) : g.ordered.Nodup := by
  refine (sound_orderedPlaces hl hg).1.filterMap fun i j r hi hj => ?_
  have hlt := (List.getElem?_eq_some_iff.1 hi).1
  exact (List.getElem?_inj hlt hn).1 (hi.trans hj.symm)

theorem length_targets (w : Workload) : (ofWorkload w).targets.length = (ofWorkload w).size := by
  simp [ofWorkload, size]

theorem nodup_targetsOf (w : Workload) (i : Nat) : ((ofWorkload w).targetsOf i).Nodup := by
  rw [targetsOf, ofWorkload, List.getD_eq_getElem?_getD, List.getElem?_map]
  cases w.resources[i]? with
  | none => exact List.nodup_nil
  | some r => exact List.nodup_range.filter _

end ResourceGraph

open ResourceGraph

theorem Workload.eq_ordered_of_validate {w : Workload} {order : List Resource}
    (h : w.validate = .ok order) : order = (ofWorkload w).ordered := by
  unfold validate build at h
  simp only [bind_assoc, pure_bind] at h
  repeat obtain ⟨-, -, h⟩ := bind_eq_ok.1 h
  split at h
  next => cases h
  next =>
    cases h
    rfl

/-- Each resource is generated at most once, and nothing else is. -/
theorem Workload.nodup_of_validate {w : Workload} {order : List Resource} (h : w.validate = .ok order) :
    order.Nodup ∧ ∀ r ∈ order, r ∈ w.resources := by
  obtain rfl := eq_ordered_of_validate h
  have hn : w.resources.Nodup := ((decides_validate w).ok _ h .names).1.of_map
  exact ⟨nodup_ordered (length_targets w) (nodup_targetsOf w) hn,
    fun r hr => mem_resources_of_mem_ordered hr⟩

theorem Workload.resource?_name {w : Workload} (hn : w.names.Nodup) {r : Resource} (hr : r ∈ w.resources) :
    w.resource? r.name = some r := by
  unfold resource?
  cases h : w.resources.find? (·.name = r.name) with
  | none => exact absurd (decide_eq_true rfl) (List.find?_eq_none.1 h r hr)
  | some s =>
    have hs : s.name = r.name := by simpa using List.find?_some h
    rw [List.inj_on_of_nodup_map hn (List.mem_of_find?_eq_some h) hr hs]

/-- An order is found again by its names. -/
theorem Workload.filterMap_resource? {w : Workload} {order : List Resource} (h : w.validate = .ok order) :
    (order.map (·.name)).filterMap w.resource? = order := by
  have hn : w.names.Nodup := ((decides_validate w).ok _ h .names).1
  rw [List.filterMap_map]
  refine (List.filterMap_congr fun r hr => ?_).trans List.filterMap_some
  exact resource?_name hn ((nodup_of_validate h).2 r hr)

end OperatorScaffold

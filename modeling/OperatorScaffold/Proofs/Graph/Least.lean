import OperatorScaffold.Proofs.Graph.Agreement
/-!
At each place of the order stands the least of what could stand there, and no count is taken below
zero on the way.
-/

namespace OperatorScaffold

open Relation (TransGen)
open scoped List

namespace ResourceGraph

variable {g : ResourceGraph} {p q : Progress} {i j d : Nat} {is ds pre post : List Nat}

/-- What may be emitted next. -/
def Ready (g : ResourceGraph) (emitted : List Nat) (i : Nat) : Prop :=
  i < g.size ∧ i ∉ emitted ∧ ∀ j ∈ g.targetsOf i, j ∈ emitted

theorem pairwise_release (hd : d ∉ p.ready) (h : p.ready.Pairwise g.Precedes) :
    (p.release g d).ready.Pairwise g.Precedes := by
  unfold Progress.release
  dsimp only
  split
  · exact pairwise_insertByKey hd h
  · exact h

theorem mem_ready_release (h : j ∈ (p.release g d).ready) : j = d ∨ j ∈ p.ready := by
  unfold Progress.release at h
  dsimp only at h
  split at h
  · exact List.mem_cons.1 ((perm_insertByKey d _).mem_iff.1 h)
  · exact .inr h

theorem pairwise_foldl_release (hn : ds.Nodup) (hd : ∀ d ∈ ds, d ∉ p.ready)
    (h : p.ready.Pairwise g.Precedes) :
    (ds.foldl (Progress.release g) p).ready.Pairwise g.Precedes := by
  induction ds generalizing p with
  | nil => exact h
  | cons d ds ih =>
    obtain ⟨hnd, hn⟩ := List.nodup_cons.1 hn
    obtain ⟨hdp, hd⟩ := List.forall_mem_cons.1 hd
    refine ih hn (fun e he hr => ?_) (pairwise_release hdp h)
    obtain rfl | hr := mem_ready_release hr
    · exact hnd he
    · exact hd e he hr

theorem Sound.pairwise_step (hs : Sound g p) (h : p.ready.Pairwise g.Precedes) :
    (p.step g).ready.Pairwise g.Precedes := by
  unfold Progress.step
  split
  next => exact h
  next i rest hr =>
    rw [hr] at h
    refine pairwise_foldl_release (List.nodup_range.filter _) (fun d hd hm => ?_) h.of_cons
    exact (hs.late hr (mem_dependentsOf.1 hd).2).2 (hr ▸ List.mem_cons_of_mem i hm)

theorem pairwise_run (hg : ∀ i, (g.targetsOf i).Nodup) (hs : Sound g p)
    (h : p.ready.Pairwise g.Precedes) (n : Nat) : (p.run g n).ready.Pairwise g.Precedes := by
  induction n generalizing p with
  | zero => exact h
  | succ n ih => exact ih (hs.step hg) (hs.pairwise_step h)

theorem Linked.pairwise_ready (h : g.Linked) (n : Nat) :
    ((Progress.start g).run g n).ready.Pairwise g.Precedes :=
  pairwise_run h.nodup (sound_start h.length) (pairwise_sortByKey (List.nodup_range.filter _)) n

/-- Each place is emitted when it is ready, and before all others that are. -/
theorem Linked.least (h : g.Linked) (ho : g.orderedPlaces = pre ++ i :: post) :
    g.Ready pre i ∧ ∀ j, g.Ready pre j → j ≠ i → g.Precedes i j := by
  obtain ⟨m, rest, rfl, hr⟩ := ready_of_orderedPlaces ho
  have hs := h.sound m
  refine ⟨hs.emits hr, fun j hj hji => ?_⟩
  have hp := h.pairwise_ready m
  have hm := (hs.ready j).2 hj
  rw [hr] at hp hm
  exact (List.pairwise_cons.1 hp).1 j ((List.mem_cons.1 hm).resolve_left hji)

/-- On the way from `p` the order comes to `q`, where it counts down what `d` waits for. -/
inductive Releases (g : ResourceGraph) (p : Progress) : Progress → Nat → Prop
  | intro {n i d : Nat} {rest before after : List Nat} : (p.run g n).ready = i :: rest →
      g.dependentsOf i = before ++ d :: after →
      Releases g p (before.foldl (Progress.release g)
        { p.run g n with ready := rest, emitted := (p.run g n).emitted ++ [i] }) d

theorem Linked.waiting_of_releases (h : g.Linked) (hq : g.Releases (.start g) q d) :
    ∃ c, q.waiting[d]? = some (c + 1) := by
  cases hq with | @intro n i d rest before after hr hd =>
  have hs := h.sound n
  have hn : (g.dependentsOf i).Nodup := List.nodup_range.filter _
  have hm : d ∈ g.dependentsOf i := hd ▸ List.mem_append_right _ List.mem_cons_self
  rw [hd] at hn
  obtain ⟨hnb, -, hdis⟩ := List.nodup_append.1 hn
  obtain ⟨-, hw, -⟩ := released_foldl (g := g)
    (p := { (Progress.start g).run g n with
      ready := rest, emitted := ((Progress.start g).run g n).emitted ++ [i] }) hnb
  have hlt := (mem_dependentsOf.1 hm).1
  rw [hw, if_neg fun hb => hdis d hb d List.mem_cons_self rfl, hs.waiting d hlt]
  -- The place that is emitted was still waited for.
  have hpos : 0 < (g.targetsOf d).countP (· ∉ ((Progress.start g).run g n).emitted) :=
    List.countP_pos_iff.2 ⟨i, (mem_dependentsOf.1 hm).2, decide_eq_true (hs.emits hr).2.1⟩
  exact ⟨_, congrArg some (Nat.succ_pred_eq_of_pos hpos).symm⟩

end ResourceGraph

open ResourceGraph

def Resource.sortKey (r : Resource) : String ×ₗ String ×ₗ String :=
  toLex (r.kind, toLex (r.group, r.version))

/-- What may be generated next: a resource whose direct dependencies are all there. -/
def Workload.Ready (w : Workload) (emitted : List Resource) (r : Resource) : Prop :=
  r ∈ w.resources ∧ r ∉ emitted ∧ ∀ name, w.DependsOn r.name name → ∃ t ∈ emitted, t.name = name

variable {w : Workload} {i j : Nat} {r s : Resource}

theorem key_ofWorkload (hi : w.resources[i]? = some r) :
    (ofWorkload w).key i = ⟨r.kind, r.group, r.version, i⟩ := by
  unfold key
  rw [show (ofWorkload w).resources[i]? = some r from hi]

theorem sortKey_lt_of_precedes (hn : Rule.gvks.Holds w) (hi : w.resources[i]? = some r)
    (hj : w.resources[j]? = some s) (h : (ofWorkload w).Precedes i j) : r.sortKey < s.sortKey := by
  have hne : r.gvk ≠ s.gvk := by
    intro e
    have hij : (w.resources.map (·.gvk))[i]? = (w.resources.map (·.gvk))[j]? := by
      rw [List.getElem?_map, List.getElem?_map, hi, hj, Option.map_some, Option.map_some, e]
    have hlt : i < (w.resources.map (·.gvk)).length := by
      rw [List.length_map]
      exact (List.getElem?_eq_some_iff.1 hi).1
    obtain rfl := (List.getElem?_inj hlt hn).1 hij
    exact lt_irrefl _ h
  rw [Precedes, key_ofWorkload hi, key_ofWorkload hj] at h
  simp only [Key.rank, Resource.sortKey, Prod.Lex.toLex_lt_toLex] at h ⊢
  obtain hk | ⟨hk, hg | ⟨hg, hv | ⟨hv, -⟩⟩⟩ := h
  · exact .inl hk
  · exact .inr ⟨hk, .inl hg⟩
  · exact .inr ⟨hk, .inr ⟨hg, hv⟩⟩
  · exact absurd (by rw [Resource.gvk, Resource.gvk, hk, hg, hv]) hne

theorem forall_targets_iff (hn : w.names.Nodup) (he : Rule.endpoints.Holds w)
    (hi : w.resources[i]? = some r) {is : List Nat} :
    (∀ name, w.DependsOn r.name name → ∃ t ∈ is.filterMap (w.resources[·]?), t.name = name) ↔
      ∀ j ∈ (ofWorkload w).targetsOf i, j ∈ is := by
  constructor
  · intro h j hj
    obtain ⟨r', s, hr', hs, hrs⟩ := dependsOn_ofWorkload.1 hj
    obtain rfl := Option.some.inj (hr'.symm.trans hi)
    obtain ⟨t, ht, htn⟩ := h s.name hrs
    obtain ⟨k, hk, ht⟩ := List.mem_filterMap.1 ht
    have hkl := (List.getElem?_eq_some_iff.1 ht).1
    have hjl := (List.getElem?_eq_some_iff.1 hs).1
    obtain rfl : k = j := nameOf_inj hn hkl hjl (by
      rw [nameOf_ofWorkload ht, nameOf_ofWorkload hs, htn])
    exact hk
  · rintro h name ⟨d, hd, hr, rfl⟩
    obtain ⟨s, hs, hsn⟩ := getElem?_idxOf_names (he d hd).2
    have hj := dependsOn_ofWorkload.2 ⟨r, s, hi, hs, d, hd, hr, hsn.symm⟩
    exact ⟨s, List.mem_filterMap.2 ⟨_, h _ hj, hs⟩, hsn⟩

theorem ready_ofWorkload_iff (hn : w.names.Nodup) (he : Rule.endpoints.Holds w)
    (hi : w.resources[i]? = some r) {is : List Nat} :
    w.Ready (is.filterMap (w.resources[·]?)) r ↔ (ofWorkload w).Ready is i := by
  have hplace : r ∈ w.resources ↔ i < (ofWorkload w).size :=
    iff_of_true (List.mem_of_getElem? hi) (List.getElem?_eq_some_iff.1 hi).1
  have hmem := (@mem_filterMap_places (ofWorkload w) i is r (hn.of_map _) hi).not
  exact and_congr hplace (and_congr hmem (forall_targets_iff hn he hi))

theorem least_of_ordered (hw : ∀ rule, Rule.Holds w rule) {pre post : List Resource}
    (ho : (ofWorkload w).ordered = pre ++ r :: post) :
    w.Ready pre r ∧ ∀ s, w.Ready pre s → s ≠ r → r.sortKey < s.sortKey := by
  have hn : w.names.Nodup := (hw .names).1
  obtain ⟨is, js, hplaces, rfl, hjs⟩ := List.filterMap_eq_append_iff.1 ho
  obtain ⟨skipped, i, post, rfl, hskip, hi, -⟩ := List.filterMap_eq_cons_iff.1 hjs
  -- Every place is the place of a resource, so none is passed over.
  obtain rfl : skipped = [] := by
    refine List.eq_nil_iff_forall_not_mem.2 fun k hk => ?_
    have hlt := (sound_orderedPlaces (length_targets w) (nodup_targetsOf w)).2 k
      (hplaces ▸ List.mem_append_right _ (List.mem_append_left _ hk))
    exact absurd (List.getElem?_eq_none_iff.1 (hskip k hk)) (Nat.not_le.2 hlt)
  obtain ⟨hr, hleast⟩ := (linked_ofWorkload w).least hplaces
  refine ⟨(ready_ofWorkload_iff hn (hw .endpoints) hi).2 hr, fun s hs hsr => ?_⟩
  obtain ⟨j, hj, rfl⟩ := List.getElem_of_mem hs.1
  have hget : w.resources[j]? = some w.resources[j] := List.getElem?_eq_getElem hj
  refine sortKey_lt_of_precedes (hw .gvks) hi hget
    (hleast j ((ready_ofWorkload_iff hn (hw .endpoints) hget).1 hs) ?_)
  rintro rfl
  exact hsr (Option.some.inj (hget.symm.trans hi))

/-- No resource is generated before one that it depends on. -/
theorem Workload.pairwise_of_validate {order : List Resource} (h : w.validate = .ok order) :
    order.Pairwise fun r s => ¬w.DependsOn r.name s.name := by
  have hw := (decides_validate w).ok _ h
  obtain ⟨hn, hmem⟩ := nodup_of_validate h
  suffices ∀ pre post, order = pre ++ post → post.Pairwise fun r s => ¬w.DependsOn r.name s.name from
    this [] order rfl
  intro pre post ho
  induction post generalizing pre with
  | nil => exact .nil
  | cons r post ih =>
    refine .cons (fun s hs hd => ?_) (ih (pre ++ [r]) (by simp [ho]))
    have ho' := eq_ordered_of_validate h ▸ ho
    obtain ⟨t, ht, hts⟩ := (least_of_ordered hw ho').1.2.2 s.name hd
    subst ho
    obtain rfl : t = s := List.inj_on_of_nodup_map (hw .names).1 (hmem t (List.mem_append_left _ ht))
      (hmem s (List.mem_append_right _ (List.mem_cons_of_mem r hs))) hts
    exact List.disjoint_of_nodup_append hn ht (List.mem_cons_of_mem r hs)

/-- A workload that validation accepts is generated completely, targets first, and at each place what
has the least key of all that could be generated there. No count of the targets that are still waited
for is taken below zero. -/
theorem Workload.validate_orders_least_first {order : List Resource} (h : w.validate = .ok order) :
    order ~ w.resources ∧
    (∀ d ∈ w.dependencies, ∃ t r, [t, r] <+ order ∧ t.name = d.target ∧ r.name = d.dependent) ∧
    (∀ pre r post, order = pre ++ r :: post →
      w.Ready pre r ∧ ∀ s, w.Ready pre s → s ≠ r → r.sortKey < s.sortKey) ∧
    ∀ p d, (ofWorkload w).Releases (.start (ofWorkload w)) p d → ∃ c, p.waiting[d]? = some (c + 1) := by
  have hw := (decides_validate w).ok _ h
  have hperm := perm_of_validate h
  obtain rfl := eq_ordered_of_validate h
  refine ⟨hperm, fun d hd => ?_, fun pre r post ho => least_of_ordered hw ho,
    fun p d hp => (linked_ofWorkload w).waiting_of_releases hp⟩
  obtain ⟨r, hr, hrn⟩ := List.mem_map.1 (hw .endpoints d hd).1
  obtain ⟨pre, post, ho⟩ := List.append_of_mem (hperm.mem_iff.2 hr)
  obtain ⟨t, ht, htn⟩ := (least_of_ordered hw ho).1.2.2 d.target ⟨d, hd, hrn.symm, rfl⟩
  refine ⟨t, r, ?_, htn, hrn⟩
  rw [ho]
  exact (List.singleton_sublist.2 ht).append (List.cons_sublist_cons.2 (List.nil_sublist post))

theorem validate_orders_least_first_with_an_edge_declared_twice :
    let gate : Resource :=
      ⟨"gate", .component, "net", "v1", "Gate", "gates", true, [], [], [], none, false, "a.yaml"⟩
    let lamp : Resource :=
      ⟨"lamp", .component, "net", "v1", "Lamp", "lamps", true, [], [], [], none, false, "b.yaml"⟩
    let w : Workload := ⟨"w", "a.yaml", "r", ⟨"net", "v1", none, true⟩, [gate, lamp],
      [⟨"gate", "lamp", "LampUp"⟩, ⟨"gate", "lamp", "LampLit"⟩]⟩
    ∃ order, w.validate = .ok order ∧ ∃ t r, [t, r] <+ order ∧ t.name = "lamp" ∧ r.name = "gate" := by
  intro gate lamp w
  have hv : w.validate.toBool = true := by decide +kernel
  cases h : w.validate with
  | error e =>
    rw [h] at hv
    cases hv
  | ok order => exact ⟨order, rfl, (Workload.validate_orders_least_first h).2.1 _ (.head _)⟩

end OperatorScaffold

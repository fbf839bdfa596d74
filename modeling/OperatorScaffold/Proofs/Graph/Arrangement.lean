import Mathlib.Data.List.Perm.Basic
import OperatorScaffold.Proofs.Graph.Least
/-!
Resources and dependencies may be declared in any order. The rules do not look at it, and what comes
least first does not either, as no two resources have one key.
-/

namespace OperatorScaffold

open scoped List

namespace Workload

variable {w : Workload} {rs : List Resource} {ds : List Dependency} {order order' : List Resource}

/-- The workload with its resources and dependencies declared in another order. -/
abbrev rearranged (w : Workload) (rs : List Resource) (ds : List Dependency) : Workload :=
  { w with resources := rs, dependencies := ds }

theorem dependsOn_rearranged (hd : ds ~ w.dependencies) :
    (w.rearranged rs ds).DependsOn = w.DependsOn := by
  funext a b
  exact propext (exists_congr fun d => and_congr_left fun _ => hd.mem_iff)

theorem tells_rearranged (hr : rs ~ w.resources) (hd : ds ~ w.dependencies) {predicate target origin : String}
    (h : (w.rearranged rs ds).Tells predicate target origin) : w.Tells predicate target origin := by
  cases h with
  | builtin h => exact .builtin (hr.mem_iff.1 h)
  | declared h => exact .declared (hd.mem_iff.1 h)

theorem holds_rearranged (hr : rs ~ w.resources) (hd : ds ~ w.dependencies) {rule : Rule}
    (h : rule.Holds w) : rule.Holds (w.rearranged rs ds) := by
  have hnames : (w.rearranged rs ds).names ~ w.names := hr.map _
  cases rule with
  | gvks => exact (hr.map _).nodup_iff.2 h
  | names =>
    refine ⟨hnames.nodup_iff.2 h.1, (hr.pairwise_iff ?_).2 h.2⟩
    exact fun hrs hg hv form hs hr => hrs hg.symm hv.symm form hr hs
  | shapes => exact ⟨fun r hm => h.1 r (hr.mem_iff.1 hm), fun r hm => h.2 r (hr.mem_iff.1 hm)⟩
  | paths => exact ((hr.product_right _).map _).nodup_iff.2 h
  | endpoints =>
    intro d hm
    obtain ⟨hdep, htarget⟩ := h d (hd.mem_iff.1 hm)
    exact ⟨hnames.mem_iff.2 hdep, hnames.mem_iff.2 htarget⟩
  | readiness =>
    intro predicate target target' origin origin' ht ht'
    exact h _ _ _ _ _ (tells_rearranged hr hd ht) (tells_rearranged hr hd ht')
  | acyclic =>
    intro name
    rw [dependsOn_rearranged hd]
    exact h name

theorem ready_rearranged (hr : rs ~ w.resources) (hd : ds ~ w.dependencies) {emitted : List Resource}
    {r : Resource} : (w.rearranged rs ds).Ready emitted r ↔ w.Ready emitted r := by
  unfold Ready
  rw [dependsOn_rearranged hd, show r ∈ (w.rearranged rs ds).resources ↔ r ∈ w.resources from hr.mem_iff]

/-- At each place of an order stands the least of what could stand there. -/
def LeastFirst (w : Workload) (order : List Resource) : Prop :=
  ∀ pre r post, order = pre ++ r :: post →
    w.Ready pre r ∧ ∀ s, w.Ready pre s → s ≠ r → r.sortKey < s.sortKey

theorem leastFirst_of_validate (h : w.validate = .ok order) : w.LeastFirst order := by
  obtain rfl := eq_ordered_of_validate h
  exact fun pre r post ho => least_of_ordered ((decides_validate w).ok _ h) ho

theorem leastFirst_rearranged (hr : rs ~ w.resources) (hd : ds ~ w.dependencies)
    (h : (w.rearranged rs ds).LeastFirst order) : w.LeastFirst order := by
  intro pre r post ho
  obtain ⟨hready, hleast⟩ := h pre r post ho
  exact ⟨(ready_rearranged hr hd).1 hready, fun s hs => hleast s ((ready_rearranged hr hd).2 hs)⟩

/-- No two orders have the least first all along. -/
theorem LeastFirst.unique (h : w.LeastFirst order) (h' : w.LeastFirst order')
    (hl : order.length = order'.length) : order = order' := by
  suffices ∀ pre post post', order = pre ++ post → order' = pre ++ post' → post = post' from
    this [] order order' rfl rfl
  -- on what comes behind the places where both orders agree
  intro pre post post' ho ho'
  have hlength : post.length = post'.length := by simpa [ho, ho'] using hl
  induction post generalizing pre post' with
  | nil => exact (List.eq_nil_of_length_eq_zero hlength.symm).symm
  | cons r post ih =>
    obtain _ | ⟨r', post'⟩ := post'
    · cases hlength
    obtain ⟨hready, hleast⟩ := h pre r post ho
    obtain ⟨hready', hleast'⟩ := h' pre r' post' ho'
    obtain rfl : r = r' := by_contra fun hne =>
      lt_asymm (hleast r' hready' (Ne.symm hne)) (hleast' r hready hne)
    rw [ih (pre ++ [r]) post' (by simp [ho]) (by simp [ho']) (Nat.succ.inj hlength)]

theorem validate_of_rearranged (hr : rs ~ w.resources) (hd : ds ~ w.dependencies)
    (h : (w.rearranged rs ds).validate = .ok order) : w.validate = .ok order := by
  have hw : ∀ rule, Rule.Holds w rule := fun rule =>
    holds_rearranged (w := w.rearranged rs ds) hr.symm hd.symm ((decides_validate _).ok _ h rule)
  cases hv : w.validate with
  | error e => exact absurd (hw _) ((decides_validate w).error _ hv).1.not_holds
  | ok order' =>
    have hleast := leastFirst_rearranged hr hd (leastFirst_of_validate h)
    have hperm := ((perm_of_validate h).trans hr).trans (perm_of_validate hv).symm
    rw [hleast.unique (leastFirst_of_validate hv) hperm.length_eq]

/-- Validation accepts a workload with the same order, whatever the order its resources and its
dependencies are declared in. -/
theorem validate_rearranged (hr : rs ~ w.resources) (hd : ds ~ w.dependencies) :
    ((∃ order, (w.rearranged rs ds).validate = .ok order) ↔ ∃ order, w.validate = .ok order) ∧
    ∀ order order', (w.rearranged rs ds).validate = .ok order → w.validate = .ok order' →
      order = order' := by
  have hiff (order : List Resource) :
      (w.rearranged rs ds).validate = .ok order ↔ w.validate = .ok order :=
    ⟨validate_of_rearranged hr hd, validate_of_rearranged (w := w.rearranged rs ds) hr.symm hd.symm⟩
  refine ⟨exists_congr hiff, fun order order' h h' => ?_⟩
  exact Except.ok.inj (((hiff order).1 h).symm.trans h')

theorem validate_rearranged_from_the_end :
    let gate : Resource :=
      ⟨"gate", .component, "net", "v1", "Gate", "gates", true, [], [], [], none, false, "a.yaml"⟩
    let lamp : Resource :=
      ⟨"lamp", .component, "net", "v1", "Lamp", "lamps", true, [], [], [], none, false, "b.yaml"⟩
    let pole : Resource :=
      ⟨"pole", .component, "net", "v1", "Pole", "poles", true, [], [], [], none, false, "c.yaml"⟩
    let w : Workload := ⟨"w", "a.yaml", "r", ⟨"net", "v1", none, true⟩, [gate, lamp, pole],
      [⟨"gate", "pole", "PoleUp"⟩, ⟨"gate", "lamp", "LampUp"⟩]⟩
    ∃ order order', (w.rearranged w.resources.reverse w.dependencies.reverse).validate = .ok order ∧
      w.validate = .ok order' ∧ order.map (·.name) = order'.map (·.name) := by
  intro gate lamp pole w
  have hv : w.validate.toBool = true := by decide +kernel
  obtain ⟨order', h⟩ : ∃ order, w.validate = .ok order := by
    cases h : w.validate with
    | error e =>
      rw [h] at hv
      cases hv
    | ok order => exact ⟨order, rfl⟩
  clear_value w
  have hsame := validate_rearranged (List.reverse_perm w.resources) (List.reverse_perm w.dependencies)
  obtain ⟨order, ho⟩ := hsame.1.2 ⟨order', h⟩
  exact ⟨order, order', ho, h, congrArg _ (hsame.2 order order' ho h)⟩

end Workload

end OperatorScaffold

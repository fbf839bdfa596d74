import OperatorScaffold.Proofs.Graph.Least
import OperatorScaffold.Proofs.Scaffold.Run
/-!
In what order a run tells of its artifacts. Each resource has its kinds one after the other, a package
is declared once and before its types, and what a resource depends on comes first.
-/

namespace OperatorScaffold

open ArtifactKind

/-- All records of one sort stand before all of another one. -/
def ScaffoldReport.Precede (report : ScaffoldReport) (P Q : ScaffoldRecord → Prop) : Prop :=
  ∀ (i j : Nat) (x y : ScaffoldRecord), report.records[i]? = some x → report.records[j]? = some y →
    P x → Q y → i < j

namespace Workload

variable {w : Workload} {g : Template.Registry} {o : ScaffoldOptions} {space space' : Workspace}
  {s : Scope} {registered : List (String × String)} {order rs : List Resource} {r : Resource}
  {p : String × String} {report : ScaffoldReport} {x : Resource × ArtifactKind}

theorem filter_kindsFor (b : Bool) :
    (kindsFor s b).filter (· ≠ .groupVersion) = perResource.filter s.includes := by
  have hfirst : ((if s.api && !b then [groupVersion] else []).filter fun k => k ≠ .groupVersion) = [] := by
    split <;> rfl
  rw [kindsFor, List.filter_append, hfirst, List.nil_append, List.filter_filter]
  refine List.filter_congr fun k hk => ?_
  have hk : k ≠ .groupVersion := by
    rintro rfl
    exact absurd hk (by decide)
  rw [decide_eq_true hk, Bool.true_and]

theorem filter_map_pair (ks : List ArtifactKind) :
    ((ks.map (r, ·)).filter fun x => x.1.name = r.name ∧ x.2 ≠ .groupVersion).map (·.2) =
      ks.filter (· ≠ .groupVersion) := by
  rw [List.filter_map, List.map_map]
  refine (List.map_id _).trans (List.filter_congr fun k _ => ?_)
  simp

/-- A resource has the kinds of the scope, one after the other. -/
theorem filter_plan (hn : (rs.map (·.name)).Nodup) (hr : r ∈ rs) :
    ((plan s registered rs).filter fun x => x.1.name = r.name ∧ x.2 ≠ .groupVersion).map (·.2) =
      perResource.filter s.includes := by
  induction rs generalizing registered with
  | nil => cases hr
  | cons r' rs ih =>
    obtain ⟨hout, hn⟩ := List.nodup_cons.1 hn
    rw [plan, List.filter_append, List.map_append]
    obtain rfl | hr := List.mem_cons.1 hr
    · have hrest : ((plan s ((r.group, r.version) :: registered) rs).filter fun x =>
          x.1.name = r.name ∧ x.2 ≠ .groupVersion) = [] := by
        refine List.filter_eq_nil_iff.2 fun x hx h => hout ?_
        exact List.mem_map.2 ⟨x.1, (mem_plan hx).1, (of_decide_eq_true h).1⟩
      rw [hrest, filter_map_pair, filter_kindsFor, List.map_nil, List.append_nil]
    · have hfirst (ks : List ArtifactKind) : ((ks.map (r', ·)).filter fun x =>
          x.1.name = r.name ∧ x.2 ≠ .groupVersion) = [] := by
        refine List.filter_eq_nil_iff.2 fun x hx h => hout ?_
        obtain ⟨k, -, rfl⟩ := List.mem_map.1 hx
        exact List.mem_map.2 ⟨r, hr, (of_decide_eq_true h).1.symm⟩
      rw [hfirst, ih hn hr]
      rfl

theorem exists_groupVersion_plan (hs : s.api) (hr : r ∈ rs) (hp : r.package ∉ registered) :
    ∃ x ∈ plan s registered rs, x.2 = .groupVersion ∧ x.1.package = r.package := by
  induction rs generalizing registered with
  | nil => cases hr
  | cons r' rs ih =>
    by_cases he : r'.package = r.package
    · refine ⟨(r', .groupVersion), List.mem_append_left _ (List.mem_map.2 ⟨_, ?_, rfl⟩), rfl, he⟩
      have hnew : r'.package ∉ registered := he ▸ hp
      simp [kindsFor, hs, show (r'.group, r'.version) ∉ registered from hnew]
    · have hr := (List.mem_cons.1 hr).resolve_left fun e => he (e ▸ rfl)
      obtain ⟨x, hx, hk⟩ := ih hr (List.not_mem_cons_of_ne_of_not_mem (Ne.symm he) hp)
      exact ⟨x, List.mem_append_right _ hx, hk⟩

/-- Nothing of a package stands before its declaration. -/
theorem pairwise_package_plan :
    (plan s registered rs).Pairwise fun x y => y.2 = .groupVersion → x.1.package ≠ y.1.package := by
  induction rs generalizing registered with
  | nil => exact .nil
  | cons r rs ih =>
    refine List.pairwise_append.2 ⟨List.pairwise_map.2 ?_, ih, ?_⟩
    · have hfirst : (groupVersion :: perResource).Pairwise fun _ k => k ≠ groupVersion := by decide
      exact (hfirst.sublist (kindsFor_sublist _)).imp fun hne e => absurd e hne
    · rintro x hx y hy e hp
      obtain ⟨k, -, rfl⟩ := List.mem_map.1 hx
      exact (mem_plan hy).2 e (List.mem_cons.2 (.inl hp.symm))

theorem pairwise_plan {R : Resource → Resource → Prop} (hself : ∀ r ∈ rs, R r r) (h : rs.Pairwise R) :
    (plan s registered rs).Pairwise fun x y => R x.1 y.1 := by
  induction h generalizing registered with
  | nil => exact .nil
  | cons hr _ ih =>
    obtain ⟨hrr, hself⟩ := List.forall_mem_cons.1 hself
    refine List.pairwise_append.2 ⟨?_, ih hself, ?_⟩
    · exact List.pairwise_map.2 (List.pairwise_of_forall fun _ _ => hrr)
    · intro x hx y hy
      obtain ⟨k, -, rfl⟩ := List.mem_map.1 hx
      exact hr _ (mem_plan hy).1

theorem countP_eq_one {α : Type} {P : α → Bool} {l : List α} (he : ∃ a ∈ l, P a)
    (hp : l.Pairwise fun a b => P b → ¬P a) : l.countP P = 1 := by
  induction hp with
  | nil => simp at he
  | @cons a l ha _ ih =>
    by_cases h : P a
    · have hrest : l.countP P = 0 := List.countP_eq_zero.2 fun b hb hPb => ha b hb hPb h
      rw [List.countP_cons_of_pos h, hrest]
    · obtain ⟨b, hb, hPb⟩ := he
      rw [List.countP_cons_of_neg h]
      exact ih ⟨b, (List.mem_cons.1 hb).resolve_left fun e => h (e ▸ hPb), hPb⟩

/-- A package is declared once where the scope has the API, and never else. -/
theorem countP_plan (hr : r ∈ rs) : (plan s [] rs).countP (fun x => x.2 = .groupVersion ∧ x.1.package = r.package) =
    if s.api then 1 else 0 := by
  split
  next hs =>
    obtain ⟨x, hx, hk⟩ := exists_groupVersion_plan hs hr List.not_mem_nil
    refine countP_eq_one ⟨x, hx, decide_eq_true hk⟩ (pairwise_package_plan.imp fun h hy hx => ?_)
    obtain ⟨hyk, hyp⟩ := of_decide_eq_true hy
    exact h hyk ((of_decide_eq_true hx).2.trans hyp.symm)
  next hs =>
    refine List.countP_eq_zero.2 fun x hx h => hs ?_
    have hinc := includes_of_mem_plan hx
    rwa [(of_decide_eq_true h).1] at hinc

/-- What the records of a run say of their artifacts, they say in the order of the plan. -/
theorem precede_of_plan {P Q : String × ArtifactKind → Prop}
    (h : w.scaffold order g o space = (.ok report, space'))
    (hp : (plan o.scope [] order).Pairwise fun x y => Q (x.1.name, x.2) → ¬P (y.1.name, y.2))
    (hne : ∀ x ∈ plan o.scope [] order, P (x.1.name, x.2) → ¬Q (x.1.name, x.2)) :
    report.Precede (fun x => P (x.resource, x.kind)) (fun x => Q (x.resource, x.kind)) := by
  have hget {i : Nat} {x : ScaffoldRecord} (hx : report.records[i]? = some x) :
      ∃ y, (plan o.scope [] order)[i]? = some y ∧ (y.1.name, y.2) = (x.resource, x.kind) := by
    have e := congrArg (·[i]?) (records_of_scaffold h)
    simp only [List.getElem?_map, hx, Option.map_some] at e
    obtain ⟨y, hy, hxy⟩ := Option.map_eq_some_iff.1 e.symm
    exact ⟨y, hy, hxy⟩
  intro i j x y hx hy hPx hQy
  obtain ⟨x', hx', ex⟩ := hget hx
  obtain ⟨y', hy', ey⟩ := hget hy
  rw [← ex] at hPx
  rw [← ey] at hQy
  refine Nat.lt_of_not_le fun hji => ?_
  obtain hji | rfl := Nat.lt_or_eq_of_le hji
  · obtain ⟨hi, rfl⟩ := List.getElem?_eq_some_iff.1 hx'
    obtain ⟨hj, rfl⟩ := List.getElem?_eq_some_iff.1 hy'
    exact List.pairwise_iff_getElem.1 hp j i hj hi hji hQy hPx
  · obtain rfl := Option.some.inj (hx'.symm.trans hy')
    exact hne _ (List.mem_of_getElem? hx') hPx hQy

/-- The group and version of the resource of a name. -/
def packageNamed? (w : Workload) (name : String) : Option (String × String) :=
  (w.resource? name).map Resource.package

theorem packageNamed?_of_mem (hn : w.names.Nodup) (hr : r ∈ w.resources) :
    w.packageNamed? r.name = some r.package := by
  rw [packageNamed?, resource?_name hn hr]
  rfl

theorem exists_of_mem_records {record : ScaffoldRecord}
    (h : w.scaffold order g o space = (.ok report, space')) (hr : record ∈ report.records) :
    ∃ r ∈ order, record.resource = r.name ∧
      record.path = o.output.join (record.kind.relativePath (.ofResource w r)) := by
  have e := map_records_of_scaffold (f := fun record => (record.resource, record.kind, record.path))
    (k := fun x => (x.1.name, x.2, (w.artifactOf o.output x).destination)) (fun _ _ => rfl) h
  obtain ⟨x, hx, hxr⟩ := List.mem_map.1 (e ▸ List.mem_map_of_mem hr)
  simp only [Prod.mk.injEq] at hxr
  obtain ⟨hname, hkind, hpath⟩ := hxr
  refine ⟨x.1, (mem_plan hx).1, hname.symm, ?_⟩
  rw [← hpath, ← hkind]
  rfl

theorem filter_records (hn : (order.map (·.name)).Nodup) (hr : r ∈ order)
    (h : w.scaffold order g o space = (.ok report, space')) :
    (report.records.filter fun x => x.resource = r.name ∧ x.kind ≠ .groupVersion).map (·.kind) =
      perResource.filter o.scope.includes := by
  have e := congrArg (List.filter fun y => y.1 = r.name ∧ y.2 ≠ .groupVersion) (records_of_scaffold h)
  rw [List.filter_map, List.filter_map] at e
  have e := congrArg (List.map (·.2)) e
  rw [List.map_map, List.map_map] at e
  exact e.trans (filter_plan hn hr)

theorem countP_records (hn : w.names.Nodup) (hw : ∀ r ∈ order, r ∈ w.resources) (hr : r ∈ order)
    (h : w.scaffold order g o space = (.ok report, space')) :
    report.records.countP (fun x => x.kind = .groupVersion ∧ w.packageNamed? x.resource = some r.package) =
      if o.scope.api then 1 else 0 := by
  have e := congrArg (List.countP fun y => y.2 = .groupVersion ∧ w.packageNamed? y.1 = some r.package)
    (records_of_scaffold h)
  rw [List.countP_map, List.countP_map] at e
  refine e.trans (Eq.trans (List.countP_congr fun x hx => ?_) (countP_plan hr))
  simp [packageNamed?_of_mem hn (hw _ (mem_plan hx).1)]

theorem precede_package (hn : w.names.Nodup) (hw : ∀ r ∈ order, r ∈ w.resources)
    (h : w.scaffold order g o space = (.ok report, space')) :
    report.Precede (fun x => x.kind = .groupVersion ∧ w.packageNamed? x.resource = some p)
      (fun x => x.kind = .apiTypes ∧ w.packageNamed? x.resource = some p) := by
  refine precede_of_plan (P := fun y => y.2 = .groupVersion ∧ w.packageNamed? y.1 = some p)
    (Q := fun y => y.2 = .apiTypes ∧ w.packageNamed? y.1 = some p) h ?_ ?_
  · refine pairwise_package_plan.imp_of_mem fun {x y} hx hy hne ⟨_, hxp⟩ ⟨hyk, hyp⟩ => hne hyk ?_
    rw [packageNamed?_of_mem hn (hw _ (mem_plan hx).1)] at hxp
    rw [packageNamed?_of_mem hn (hw _ (mem_plan hy).1)] at hyp
    exact (Option.some.inj hxp).trans (Option.some.inj hyp).symm
  · rintro x - ⟨hk, -⟩ ⟨hk', -⟩
    rw [hk] at hk'
    cases hk'

theorem precede_dependency (hv : w.validate = .ok order) {d : Dependency} (hd : d ∈ w.dependencies)
    (h : w.scaffold order g o space = (.ok report, space')) :
    report.Precede (·.resource = d.target) (·.resource = d.dependent) := by
  have hdep : w.DependsOn d.dependent d.target := ⟨d, hd, rfl, rfl⟩
  have hself (name : String) : ¬w.DependsOn name name := fun h =>
    (decides_validate w).ok _ hv .acyclic name (.single h)
  refine precede_of_plan (P := fun y => y.1 = d.target) (Q := fun y => y.1 = d.dependent) h ?_ ?_
  · have hp : (plan o.scope [] order).Pairwise fun x y => ¬w.DependsOn x.1.name y.1.name :=
      pairwise_plan (fun r _ => hself r.name) (pairwise_of_validate hv)
    refine hp.imp fun {x y} hxy hx hy => hxy ?_
    rw [← hx, ← hy] at hdep
    exact hdep
  · intro x _ ht hdt
    refine hself x.1.name ?_
    rw [← ht, ← hdt] at hdep
    exact hdep

/-- A run tells of each resource in turn what it was to make of it in its scope. A package is declared
once, ahead of all types in it, and what a resource depends on is done before the resource. -/
theorem records_in_sequence (hv : w.validate = .ok order)
    (h : w.scaffold order g o space = (.ok report, space')) :
    (∀ x ∈ report.records, ∃ r ∈ w.resources, x.resource = r.name ∧
      x.path = o.output.join (x.kind.relativePath (.ofResource w r))) ∧
    (∀ r ∈ w.resources,
      (report.records.filter fun x => x.resource = r.name ∧ x.kind ≠ .groupVersion).map (·.kind) =
        perResource.filter o.scope.includes) ∧
    (∀ p ∈ w.packages,
      report.records.countP (fun x => x.kind = .groupVersion ∧ w.packageNamed? x.resource = some p) =
        (if o.scope.api then 1 else 0) ∧
      report.Precede (fun x => x.kind = .groupVersion ∧ w.packageNamed? x.resource = some p)
        (fun x => x.kind = .apiTypes ∧ w.packageNamed? x.resource = some p)) ∧
    ∀ d ∈ w.dependencies, report.Precede (·.resource = d.target) (·.resource = d.dependent) := by
  have hn : w.names.Nodup := ((decides_validate w).ok _ hv .names).1
  have hperm := perm_of_validate hv
  have hw : ∀ r ∈ order, r ∈ w.resources := fun r => hperm.mem_iff.1
  refine ⟨fun x hx => ?_, fun r hr => ?_, fun p hp => ?_, fun d hd => precede_dependency hv hd h⟩
  · obtain ⟨r, hr, hx⟩ := exists_of_mem_records h hx
    exact ⟨r, hw r hr, hx⟩
  · exact filter_records ((hperm.map _).nodup_iff.2 hn) (hperm.mem_iff.2 hr) h
  · obtain ⟨r, hr, rfl⟩ := mem_packages.1 hp
    exact ⟨countP_records hn hw (hperm.mem_iff.2 hr) h, precede_package hn hw h⟩

theorem records_in_sequence_of_a_package_on_both_ends :
    let gate : Resource :=
      ⟨"gate", .component, "net", "v1", "Gate", "gates", true, [], [], [], none, false, "a.yaml"⟩
    let lamp : Resource :=
      ⟨"lamp", .component, "lux", "v1", "Lamp", "lamps", true, [], [], [], none, false, "b.yaml"⟩
    let pole : Resource :=
      ⟨"pole", .component, "net", "v1", "Pole", "poles", true, [], [], [], none, false, "c.yaml"⟩
    let w : Workload := ⟨"w", "a.yaml", "r", ⟨"net", "v1", none, true⟩, [gate, lamp, pole],
      [⟨"gate", "lamp", "LampUp"⟩, ⟨"lamp", "pole", "PoleUp"⟩]⟩
    let g : Template.Registry := ⟨[("api/groupversion", fun _ => .ok "package v1"),
      ("api/types", fun c => .ok c.resource.kind), ("config/sample", fun _ => .ok "fresh")]⟩
    let o : ScaffoldOptions := ⟨⟨"out"⟩, ⟨false, true⟩, ⟨true, false, true, false, false⟩, none⟩
    let space : Workspace := ⟨⟨[(["out"], .directory)]⟩, [], []⟩
    ∃ order report space', w.validate = .ok order ∧ w.scaffold order g o space = (.ok report, space') ∧
      (report.records.filter fun x => x.resource = "gate" ∧ x.kind ≠ .groupVersion).map (·.kind) =
        [.apiTypes, .sample] ∧
      report.records.countP (fun x => x.kind = .groupVersion ∧
        w.packageNamed? x.resource = some ("net", "v1")) = 1 ∧
      report.Precede (·.resource = "pole") (·.resource = "lamp") := by
  intro gate lamp pole w g o space
  have htrial : (w.trial? g o space).any fun _ => true := by decide +kernel
  obtain ⟨order, report, space', hv, h, -⟩ := exists_of_trial? htrial
  obtain ⟨-, hkinds, hpackages, hedges⟩ := records_in_sequence hv h
  exact ⟨order, report, space', hv, h, hkinds gate (.head _),
    (hpackages ("net", "v1") (mem_packages.2 ⟨gate, .head _, rfl⟩)).1, hedges _ (.tail _ (.head _))⟩

end Workload

end OperatorScaffold

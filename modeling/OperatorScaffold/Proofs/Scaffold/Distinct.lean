import OperatorScaffold.Proofs.Files.Parts
import OperatorScaffold.Proofs.Scaffold.Run
/-!
All paths that a workload is scaffolded to are distinct, those that validation does not look at among
them. What a report tells of a path is therefore told once.
-/

namespace OperatorScaffold

open ArtifactKind Workspace

namespace ArtifactKind

variable {i j : Identity} {k k' : ArtifactKind}

theorem head?_dirs : (k.dirs i).head? ≠ some "." := by
  cases k <;> simp [dirs]

theorem parts_relativePath (hi : i.Sound) :
    (k.relativePath i).parts = (k.dirs i).filter (!Path.isDot ·) ++ [k.fileName i] :=
  (ends_relativePath hi).parts head?_dirs

theorem place_of_parts (hi : i.Sound) (hj : j.Sound)
    (h : (k.relativePath i).parts = (k'.relativePath j).parts) : k.place i = k'.place j := by
  have e := (ends_relativePath (k := k) hi).land_parts head?_dirs (land?_dirs hi)
  rw [h, (ends_relativePath hj).land_parts head?_dirs (land?_dirs hj)] at e
  exact (Option.some.inj e).symm

theorem kind_of_parts (hi : i.Sound) (hj : j.Sound)
    (h : (k.relativePath i).parts = (k'.relativePath j).parts) : k = k' := by
  rw [← kindAt_place (k := k) hi, place_of_parts hi hj h, kindAt_place hj]

theorem getLast?_parts (hi : i.Sound) : (k.relativePath i).parts.getLast? = some (k.fileName i) := by
  rw [parts_relativePath hi, List.getLast?_concat]

/-- No artifact goes where the metadata of the project or the header is. -/
theorem parts_ne (hi : i.Sound) {p : Path} {n : String} (hp : p.parts.getLast? = some n)
    (hn : ∀ c ∈ n.toList.getLast?, c ≠ 'o' ∧ c ≠ 'l') : (k.relativePath i).parts ≠ p.parts := by
  intro h
  rw [← h, getLast?_parts hi] at hp
  exact fileName_ne hn (Option.some.inj hp)

end ArtifactKind

/-- The file that declares a group and version. -/
def packageFile (p : String × String) : Path :=
  Path.joinAll ⟨"apis"⟩ [p.1, p.2, "groupversion_info.go"]

namespace Workload

/-- All paths below the root that a workload has to do with. -/
def paths (w : Workload) : List Path :=
  w.artifacts.map w.pathOf ++ w.packages.map packageFile ++ [⟨"PROJECT"⟩, Boilerplate.relativePath]

variable {w : Workload} {g : Template.Registry} {o : ScaffoldOptions} {s s' : Workspace}
  {order rs : List Resource} {x y : Resource × ArtifactKind} {p : Path}

theorem relative_pathOf (hs : Rule.shapes.Holds w) (hx : x.1 ∈ w.resources) :
    ¬(w.pathOf x).isAbsolute ∧ (w.pathOf x).names.head? ≠ some "." := by
  have he := ends_relativePath (k := x.2) (sound_ofResource hs hx)
  refine ⟨he.relative, ?_⟩
  rw [pathOf, he.names, List.head?_append]
  cases hd : x.2.dirs (.ofResource w x.1) with
  | nil => simpa using he.isName.1
  | cons d ds => simpa [hd] using head?_dirs (k := x.2) (i := .ofResource w x.1)

/-- Only the file of a package is the same path for two resources, and then they share the package. -/
theorem eq_of_parts (hw : ∀ rule, Rule.Holds w rule) (hx : x.1 ∈ w.resources) (hy : y.1 ∈ w.resources)
    (h : (w.pathOf x).parts = (w.pathOf y).parts) :
    x.2 = y.2 ∧ (x.2 = .groupVersion → x.1.package = y.1.package) ∧ (x.2 ≠ .groupVersion → x.1 = y.1) := by
  obtain ⟨r, k⟩ := x
  obtain ⟨r', k'⟩ := y
  have hi := sound_ofResource (hw .shapes) hx
  have hj := sound_ofResource (hw .shapes) hy
  obtain rfl : k = k' := kind_of_parts hi hj h
  have hplace := place_of_parts hi hj h
  refine ⟨rfl, ?_, fun hk => ?_⟩
  · rintro rfl
    obtain ⟨hg, hv⟩ := package_eq hplace
    exact Prod.ext hg hv
  · exact eq_of_snakeCase_eq (hw .paths) hx hy (snakeCase_eq hi hj hk hplace)

theorem nodup_paths (hw : ∀ rule, Rule.Holds w rule) : (w.paths.map Path.parts).Nodup := by
  have hfixed (k : ArtifactKind) {r : Resource} (hr : r ∈ w.resources) :
      ∀ p ∈ [⟨"PROJECT"⟩, Boilerplate.relativePath], (w.pathOf (r, k)).parts ≠ p.parts := by
    have hi := sound_ofResource (hw .shapes) hr
    refine List.forall_mem_cons.2 ⟨parts_ne hi (n := "PROJECT") (by decide) (by simp), ?_⟩
    exact List.forall_mem_singleton.2 (parts_ne hi (n := "boilerplate.go.txt") (by decide) (by simp))
  have hpackages : (w.packages.map fun p => (packageFile p).parts).Nodup := by
    refine (List.nodup_dedup _).map_on fun p hp q hq h => ?_
    obtain ⟨r, hr, rfl⟩ := mem_packages.1 hp
    obtain ⟨r', hr', rfl⟩ := mem_packages.1 hq
    exact (eq_of_parts (x := (r, .groupVersion)) (y := (r', .groupVersion)) hw hr hr' h).2.1 rfl
  simp only [paths, List.map_append, List.map_map, List.nodup_append, List.mem_append, List.mem_map]
  refine ⟨⟨hw .paths, hpackages, ?_⟩, by decide, ?_⟩
  · rintro _ ⟨⟨r, k⟩, ha, rfl⟩ _ ⟨p, hp, rfl⟩ h
    obtain ⟨hr, hk⟩ := List.mem_product.1 ha
    obtain ⟨r', hr', rfl⟩ := mem_packages.1 hp
    obtain rfl : k = .groupVersion := (eq_of_parts (y := (r', .groupVersion)) hw hr hr' h).1
    exact absurd hk (by decide)
  · rintro _ (⟨⟨r, k⟩, ha, rfl⟩ | ⟨p, hp, rfl⟩) _ ⟨q, hq, rfl⟩
    · exact hfixed k (List.mem_product.1 ha).1 q hq
    · obtain ⟨r, hr, rfl⟩ := mem_packages.1 hp
      exact hfixed .groupVersion hr q hq

theorem nodup_parts_plan (hw : ∀ rule, Rule.Holds w rule) (hn : rs.Nodup)
    (hrs : ∀ r ∈ rs, r ∈ w.resources) (root : Path) (scope : Scope) :
    ((w.destinations root (plan scope [] rs)).map Path.parts).Nodup := by
  rw [destinations, List.map_map, List.Nodup, List.pairwise_map]
  refine (pairwise_placeOf hw hn hrs).imp_of_mem fun {x y} hx hy hne h => hne ?_
  obtain ⟨hxrel, hxdot⟩ := relative_pathOf (hw .shapes) (hrs _ (mem_plan hx).1)
  obtain ⟨hyrel, hydot⟩ := relative_pathOf (hw .shapes) (hrs _ (mem_plan hy).1)
  change (root.join (w.pathOf x)).parts = (root.join (w.pathOf y)).parts at h
  rw [Path.parts_join hxrel hxdot, Path.parts_join hyrel hydot] at h
  exact place_of_parts (sound_of_mem_plan (hw .shapes) hrs hx) (sound_of_mem_plan (hw .shapes) hrs hy)
    (List.append_cancel_left h)

end Workload

namespace ScaffoldReport

variable {report : ScaffoldReport} {p : Path} {outcome : WriteOutcome}

/-- Where no path is told of twice, each record is found by its path. -/
theorem outcomeOf?_eq_some_iff (hn : (report.records.map (·.path.parts)).Nodup) :
    report.outcomeOf? p = some outcome ↔
      ∃ record ∈ report.records, record.path.alike p ∧ record.outcome = outcome := by
  have halike (record : ScaffoldRecord) : record.path.alike p ↔ record.path.parts = p.parts := beq_iff_eq
  rw [outcomeOf?, Option.map_eq_some_iff]
  constructor
  · rintro ⟨record, hr, rfl⟩
    exact ⟨record, List.mem_of_find?_eq_some hr, by simpa using List.find?_some hr, rfl⟩
  · rintro ⟨record, hr, hp, rfl⟩
    cases hf : report.records.find? (·.path.alike p) with
    | none => exact absurd hp (List.find?_eq_none.1 hf record hr)
    | some found =>
      have hfp : found.path.alike p := by simpa using List.find?_some hf
      refine ⟨found, rfl, congrArg _ ?_⟩
      exact List.inj_on_of_nodup_map hn (List.mem_of_find?_eq_some hf) hr
        (((halike found).1 hfp).trans ((halike record).1 hp).symm)

end ScaffoldReport

/-- All paths that an accepted workload has to do with are distinct. No path is therefore told of
twice in the report of a run, and what has become of it is told by the one record that has it. -/
theorem Workload.paths_are_distinct {w : Workload} {order : List Resource} (hv : w.validate = .ok order) :
    (w.paths.map Path.parts).Nodup ∧
    ∀ g o s s' report, w.scaffold order g o s = (.ok report, s') →
      (report.records.map (·.path.parts)).Nodup ∧
      ∀ p outcome, report.outcomeOf? p = some outcome ↔
        ∃ record ∈ report.records, record.path.alike p ∧ record.outcome = outcome := by
  have hw := (decides_validate w).ok _ hv
  refine ⟨nodup_paths hw, fun g o s s' report h => ?_⟩
  have hn : (report.records.map (·.path.parts)).Nodup := by
    obtain ⟨hn, hrs⟩ := nodup_of_validate hv
    have hparts := nodup_parts_plan hw hn hrs o.output o.scope
    rwa [← paths_of_scaffold h, List.map_map] at hparts
  exact ⟨hn, fun p outcome => ScaffoldReport.outcomeOf?_eq_some_iff hn⟩

theorem paths_are_distinct_in_a_group_that_is_a_dot :
    let gate : Resource :=
      ⟨"gate", .component, ".", "v1", "Gate", "gates", true, [], [], [], none, false, "a.yaml"⟩
    let lamp : Resource :=
      ⟨"lamp", .component, ".", "v1", "LampGroup", "lamps", true, [], [], [], none, false, "b.yaml"⟩
    let w : Workload := ⟨"w", "a.yaml", "r", ⟨"net", "v1", none, true⟩, [gate, lamp], []⟩
    let g : Template.Registry := ⟨[("api/groupversion", fun _ => .ok "package v1"),
      ("api/types", fun c => .ok c.resource.kind)]⟩
    let o : ScaffoldOptions := ⟨⟨"./out/"⟩, ⟨false, true⟩, ⟨true, false, false, false, false⟩, none⟩
    ∃ order report s', w.validate = .ok order ∧
      w.scaffold order g o ⟨⟨[(["out"], .directory)]⟩, [], []⟩ = (.ok report, s') ∧
      (w.paths.map Path.parts).Nodup ∧ w.paths.length = 13 ∧
      (report.records.map (·.path.parts)).Nodup ∧
      report.outcomeOf? ⟨"./out/apis/v1/lamp_group_types.go"⟩ = some .created := by
  intro gate lamp w g o
  have htrial : (w.trial? g o ⟨⟨[(["out"], .directory)]⟩, [], []⟩).any
      (·.outcomeOf? ⟨"./out/apis/v1/lamp_group_types.go"⟩ = some .created) := by
    decide +kernel
  obtain ⟨order, report, s', hv, h, houtcome⟩ := Workload.exists_of_trial? htrial
  obtain ⟨hn, hreports⟩ := Workload.paths_are_distinct hv
  exact ⟨order, report, s', hv, h, hn, by decide, (hreports _ _ _ _ _ h).1, of_decide_eq_true houtcome⟩

end OperatorScaffold

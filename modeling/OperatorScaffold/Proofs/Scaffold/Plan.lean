import Mathlib.Data.List.Dedup
import OperatorScaffold.Proofs.Graph.Order
import OperatorScaffold.Proofs.Scaffold.Separation
import OperatorScaffold.Scaffold.Run
/-!
The artifacts of a run, laid out before it starts. A run emits them one by one.
-/

namespace OperatorScaffold

open ArtifactKind Workspace
open scoped List

def Resource.package (r : Resource) : String × String := (r.group, r.version)

namespace Workload

/-- The groups and versions of the resources, each once. -/
def packages (w : Workload) : List (String × String) := (w.resources.map Resource.package).dedup

theorem mem_packages {w : Workload} {p : String × String} :
    p ∈ w.packages ↔ ∃ r ∈ w.resources, r.package = p := by
  rw [packages, List.mem_dedup, List.mem_map]

/-- The artifacts of a run in the order they are emitted; `registered` holds the packages that have
their file. -/
def plan (s : Scope) : List (String × String) → List Resource → List (Resource × ArtifactKind)
  | _, [] => []
  | registered, r :: rs =>
    (kindsFor s (registered.contains (r.group, r.version))).map (r, ·) ++
      plan s ((r.group, r.version) :: registered) rs

variable (w : Workload) (g : Template.Registry) (o : ScaffoldOptions) (header : String)
  {s : Scope} {registered : List (String × String)} {rs : List Resource}

def artifactOf (root : Path) (x : Resource × ArtifactKind) : Artifact := .of root (.ofResource w x.1) x.2

def emit (x : Resource × ArtifactKind) : Action Error ScaffoldRecord := do
  let a := w.artifactOf o.output x
  let c := Template.Context.of w x.1 header
  let outcome ← (a.scaffold g o.mode c).relabel (.scaffold x.1.gvk.text)
  if x.2 = .dependencies && outcome = .skipped then
    modify fun space => (missingPredicates space a.destination c.predicates).foldl notify space
  return ⟨x.1.name, x.2, a.destination, outcome⟩

theorem scaffoldKinds_eq (r : Resource) (ks : List ArtifactKind) :
    scaffoldKinds g o r (.of w r header) ks = (ks.map (r, ·)).mapM (w.emit g o header) := by
  induction ks with
  | nil => rfl
  | cons k ks ih =>
    rw [scaffoldKinds, ih, List.map_cons, List.mapM_cons, emit]
    simp only [bind_assoc]
    refine bind_congr fun outcome => ?_
    split
    · simp only [bind_assoc, pure_bind]
      rfl
    · simp only [pure_bind]
      rfl

theorem scaffoldResources_eq (registered : List (String × String)) (rs : List Resource) :
    scaffoldResources w g o header registered rs =
      (plan o.scope registered rs).mapM (w.emit g o header) := by
  induction rs generalizing registered with
  | nil => rfl
  | cons r rs ih =>
    rw [scaffoldResources, plan, List.mapM_append, ← scaffoldKinds_eq, ih]

variable {w}

theorem kindsFor_sublist (b : Bool) : kindsFor s b <+ groupVersion :: perResource := by
  change _ ++ _ <+ [groupVersion] ++ perResource
  refine List.Sublist.append ?_ List.filter_sublist
  split
  · exact .refl _
  · exact List.nil_sublist _

theorem nodup_kindsFor (b : Bool) : (kindsFor s b).Nodup :=
  have h : (groupVersion :: perResource).Nodup := by decide
  h.sublist (kindsFor_sublist b)

theorem mem_plan {x : Resource × ArtifactKind} (h : x ∈ plan s registered rs) :
    x.1 ∈ rs ∧ (x.2 = .groupVersion → (x.1.group, x.1.version) ∉ registered) := by
  induction rs generalizing registered with
  | nil => cases h
  | cons r rs ih =>
    obtain h | h := List.mem_append.1 h
    · obtain ⟨k, hk, rfl⟩ := List.mem_map.1 h
      refine ⟨List.mem_cons_self, ?_⟩
      rintro rfl
      obtain h | h := List.mem_append.1 hk
      · by_cases hr : (r.group, r.version) ∈ registered
        · simp [hr] at h
        · exact hr
      · exact absurd (List.mem_filter.1 h).1 (by decide)
    · obtain ⟨hx, hp⟩ := ih h
      exact ⟨List.mem_cons_of_mem r hx, fun hk hr => hp hk (List.mem_cons_of_mem _ hr)⟩

theorem includes_of_mem_kindsFor {b : Bool} {k : ArtifactKind} (h : k ∈ kindsFor s b) : s.includes k := by
  obtain h | h := List.mem_append.1 h
  · split at h
    next hs =>
      obtain rfl := List.mem_singleton.1 h
      exact (Bool.and_eq_true_iff.1 hs).1
    next => cases h
  · exact (List.mem_filter.1 h).2

theorem includes_of_mem_plan {x : Resource × ArtifactKind} (h : x ∈ plan s registered rs) :
    s.includes x.2 := by
  induction rs generalizing registered with
  | nil => cases h
  | cons r rs ih =>
    obtain h | h := List.mem_append.1 h
    · obtain ⟨k, hk, rfl⟩ := List.mem_map.1 h
      exact includes_of_mem_kindsFor hk
    · exact ih h

theorem mem_plan_of_includes {k : ArtifactKind} {r : Resource} (hk : k ∈ perResource) (h : s.includes k)
    (hr : r ∈ rs) : (r, k) ∈ plan s registered rs := by
  induction rs generalizing registered with
  | nil => cases hr
  | cons r' rs ih =>
    obtain rfl | hr := List.mem_cons.1 hr
    · refine List.mem_append_left _ (List.mem_map_of_mem ?_)
      exact List.mem_append_right _ (List.mem_filter.2 ⟨hk, h⟩)
    · exact List.mem_append_right _ (ih hr)

def placeOf (w : Workload) (x : Resource × ArtifactKind) : Place := x.2.place (.ofResource w x.1)

variable {order : List Resource} {r r' : Resource}

theorem sound_ofResource (hr : Rule.shapes.Holds w) (h : r ∈ w.resources) :
    (Identity.ofResource w r).Sound := by
  have ⟨hk, _, hg, hv⟩ := hr.1 r h
  exact ⟨hg, hv, hk⟩

theorem eq_of_snakeCase_eq (hp : Rule.paths.Holds w) (h : r ∈ w.resources) (h' : r' ∈ w.resources)
    (e : Naming.snakeCase (Identity.ofResource w r).kind = Naming.snakeCase (Identity.ofResource w r').kind) :
    r = r' := by
  have mem {r : Resource} (h : r ∈ w.resources) : (r, ArtifactKind.dependencies) ∈ w.artifacts :=
    List.mem_product.2 ⟨h, by decide⟩
  refine congrArg Prod.fst (List.inj_on_of_nodup_map hp (mem h) (mem h') ?_)
  simp only [pathOf, relativePath, e]

theorem pairwise_placeOf (hr : ∀ rule, Rule.Holds w rule) (hn : rs.Nodup)
    (hw : ∀ r ∈ rs, r ∈ w.resources) :
    (plan s registered rs).Pairwise fun x y => w.placeOf x ≠ w.placeOf y := by
  induction rs generalizing registered with
  | nil => exact .nil
  | cons r rs ih =>
    have ⟨hrw, hrsw⟩ := List.forall_mem_cons.1 hw
    have ⟨hout, hn⟩ := List.nodup_cons.1 hn
    have hs := sound_ofResource (hr .shapes) hrw
    refine List.pairwise_append.2 ⟨?_, ih hn hrsw, ?_⟩
    · refine List.pairwise_map.2 ((nodup_kindsFor _).imp fun {k k'} hne e => hne ?_)
      rw [← kindAt_place (k := k) hs, ← kindAt_place (k := k') hs]
      exact congrArg kindAt e
    · rintro x hx ⟨r', k'⟩ hy e
      obtain ⟨k, -, rfl⟩ := List.mem_map.1 hx
      obtain ⟨hr', hp⟩ := mem_plan hy
      have hs' := sound_ofResource (hr .shapes) (hrsw r' hr')
      change k.place (.ofResource w r) = k'.place (.ofResource w r') at e
      have hk : k = k' := by
        rw [← kindAt_place (k := k) hs, ← kindAt_place (k := k') hs']
        exact congrArg kindAt e
      subst hk
      by_cases hg : k = groupVersion
      · subst hg
        obtain ⟨hgroup, hversion⟩ := package_eq e
        exact hp rfl (List.mem_cons.2 (.inl (Prod.ext hgroup.symm hversion.symm)))
      · obtain rfl := eq_of_snakeCase_eq (hr .paths) hrw (hrsw r' hr') (snakeCase_eq hs hs' hg e)
        exact hout hr'

def destinations (w : Workload) (root : Path) (xs : List (Resource × ArtifactKind)) : List Path :=
  xs.map fun x => (w.artifactOf root x).destination

variable {space : Workspace} {root : Path}

theorem sound_of_mem_plan (hr : Rule.shapes.Holds w) (hw : ∀ r ∈ rs, r ∈ w.resources)
    {x : Resource × ArtifactKind} (hx : x ∈ plan s registered rs) : (Identity.ofResource w x.1).Sound :=
  sound_ofResource hr (hw _ (mem_plan hx).1)

theorem separate_project_plan (hl : space.NoLinksBelow root) (hr : Rule.shapes.Holds w)
    (hw : ∀ r ∈ rs, r ∈ w.resources) :
    Separate space root (ProjectFile.path root :: w.destinations root (plan s registered rs)) := by
  refine separate_project hl fun p hp => ?_
  obtain ⟨x, hx, rfl⟩ := List.mem_map.1 hp
  exact ⟨_, x.2, sound_of_mem_plan hr hw hx, rfl⟩

theorem apart_plan (hl : space.NoLinksBelow root) (hr : ∀ rule, Rule.Holds w rule) (hn : rs.Nodup)
    (hw : ∀ r ∈ rs, r ∈ w.resources) :
    (w.destinations root (plan s registered rs)).Pairwise space.Apart := by
  refine List.pairwise_map.2 ((pairwise_placeOf hr hn hw).imp_of_mem fun hx hy hne => ?_)
  exact apart_of_place_ne hl (sound_of_mem_plan (hr .shapes) hw hx)
    (sound_of_mem_plan (hr .shapes) hw hy) hne

theorem apart_project_plan (hl : space.NoLinksBelow root) (hr : Rule.shapes.Holds w)
    (hw : ∀ r ∈ rs, r ∈ w.resources) :
    ∀ p ∈ w.destinations root (plan s registered rs), space.Apart p (ProjectFile.path root) := by
  intro p hp
  obtain ⟨x, hx, rfl⟩ := List.mem_map.1 hp
  exact apart_project hl (sound_of_mem_plan hr hw hx)

/-- The destinations of a run keep out of each other's way, and out of that of the metadata. -/
structure LaidOut (w : Workload) (order : List Resource) (scope : Scope) (root : Path)
    (space : Workspace) : Prop where
  separate : Separate space root (ProjectFile.path root :: w.destinations root (plan scope [] order))
  apart : (w.destinations root (plan scope [] order)).Pairwise space.Apart
  project : ∀ p ∈ w.destinations root (plan scope [] order), space.Apart p (ProjectFile.path root)

theorem laidOut {scope : Scope} (hv : w.validate = .ok order) (hl : space.NoLinksBelow root) :
    w.LaidOut order scope root space := by
  have hrules := (decides_validate w).ok _ hv
  obtain ⟨hn, hw⟩ := nodup_of_validate hv
  exact ⟨separate_project_plan hl (hrules .shapes) hw, apart_plan hl hrules hn hw,
    apart_project_plan hl (hrules .shapes) hw⟩

end Workload

end OperatorScaffold

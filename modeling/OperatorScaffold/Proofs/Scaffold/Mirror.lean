import OperatorScaffold.Proofs.Files.Mirror
import OperatorScaffold.Proofs.Scaffold.Rehearsal
/-!
Artifacts that are emitted, and metadata that is recorded, in two workspaces that differ in files that are
none of theirs.
-/

namespace OperatorScaffold

open Workspace

variable {P : Place → Prop} {s s₀ t : Workspace} {p : Path} {root : Path}

theorem Workspace.SameBut.entry?_eq (h : s.SameBut P t) (hg : s₀.Grows s) (ha : Avoids P s₀ p) :
    t.entry? p = s.entry? p := by
  unfold entry?
  rw [h.locate_eq hg ha]

namespace Artifact

variable {a : Artifact} {g : Template.Registry} {m : WriteMode} {c : Template.Context}

theorem mirrors_perform (h : s.SameBut P t) (hg : s₀.Grows s) (ha : Avoids P s₀ a.destination) (dryRun : Bool)
    (v : Verdict) : Action.Mirrors P (a.perform dryRun v) (a.perform dryRun v) s t := by
  obtain ⟨outcome, text?, lost⟩ := v
  obtain ⟨ns, hs⟩ := foldl_notify (.droppedRegion a.destination) lost s
  obtain ⟨ns', ht⟩ := foldl_notify (.droppedRegion a.destination) lost t
  have hnotified : SameBut P { s with notices := ns } { t with notices := ns' } := h.notices ns ns'
  unfold Action.Mirrors perform
  rw [Action.bind_apply_ok (Action.modify_apply _), Action.bind_apply_ok (Action.modify_apply _), hs, ht]
  cases text? with
  | none => exact ⟨rfl, hnotified⟩
  | some text =>
    cases dryRun with
    | true => exact ⟨rfl, hnotified⟩
    | false =>
      have hgrows : s₀.Grows { s with notices := ns } := hg
      have hwrite := (hnotified.writeText hgrows ha text).relabel fun x => ScaffoldError.io x.1 x.2
      exact hwrite.bind fun _ _ _ _ h' => .pure h' outcome

theorem mirrors_scaffold (h : s.SameBut P t) (hg : s₀.Grows s) (ha : Avoids P s₀ a.destination) :
    Action.Mirrors P (a.scaffold g m c) (a.scaffold g m c) s t := by
  unfold Action.Mirrors
  rw [scaffold_apply, scaffold_apply, h.entry?_eq hg ha]
  refine (Action.Mirrors.liftExcept h rfl).bind fun v s' t' hs h' => ?_
  obtain ⟨-, rfl⟩ := Prod.mk.inj hs
  exact mirrors_perform h' hg ha m.dryRun v

end Artifact

namespace Workload

variable {w : Workload} {g : Template.Registry} {o : ScaffoldOptions} {header : String} {order : List Resource}
  {x : Resource × ArtifactKind} {xs done : List (Resource × ArtifactKind)} {dests : List Path}

theorem mirrors_emit (h : s.SameBut P t) (hg : s₀.Grows s)
    (ha : Avoids P s₀ (w.artifactOf o.output x).destination) :
    Action.Mirrors P (w.emit g o header x) (w.emit g o header x) s t := by
  unfold emit
  refine ((Artifact.mirrors_scaffold h hg ha).relabel _).bind fun outcome s' t' _ h' => ?_
  split
  · obtain ⟨ns, hs⟩ := Artifact.foldl_notify id (missingPredicates s'
      (w.artifactOf o.output x).destination (Template.Context.of w x.1 header).predicates) s'
    obtain ⟨ns', ht⟩ := Artifact.foldl_notify id (missingPredicates t'
      (w.artifactOf o.output x).destination (Template.Context.of w x.1 header).predicates) t'
    refine .of_eq (Action.bind_apply_ok (Action.modify_apply _)) (Action.bind_apply_ok (Action.modify_apply _)) ?_
    exact hs ▸ ht ▸ h'.notices ns ns'
  · exact .pure h' _

/-- Artifacts that are emitted at destinations apart from each other and from the files that differ. -/
theorem mirrors_mapM (hm : w.Midway o s₀ s dests done xs) (hd : o.mode.dryRun = false)
    (ha : ∀ p ∈ w.destinations o.output xs, Avoids P s₀ p) (h : s.SameBut P t) :
    Action.Mirrors P (xs.mapM (w.emit g o header)) (xs.mapM (w.emit g o header)) s t := by
  induction xs generalizing done s t with
  | nil => exact ⟨rfl, h⟩
  | cons x xs ih =>
    obtain ⟨hax, haxs⟩ := List.forall_mem_cons.1 ha
    rw [List.mapM_cons]
    refine (mirrors_emit h hm.between.grows hax).bind fun record s' t' hone h' => ?_
    obtain ⟨-, ⟨_, he, -⟩ | ⟨_, -, hm', -⟩⟩ := hm.step hd hone
    · cases he
    exact (ih hm' haxs h').bind fun records _ _ _ h'' => .pure h'' (record :: records)

/-- Where no file differs, anything can be emitted. -/
theorem mirrors_mapM_nowhere (h : s.SameBut (fun _ => False) t) (xs : List (Resource × ArtifactKind)) :
    Action.Mirrors (fun _ => False) (xs.mapM (w.emit g o header)) (xs.mapM (w.emit g o header)) s t := by
  induction xs generalizing s t with
  | nil => exact ⟨rfl, h⟩
  | cons x xs ih =>
    rw [List.mapM_cons]
    refine (mirrors_emit h (.refl s) (avoids_nowhere s _)).bind fun record _ _ _ h' => ?_
    exact (ih h').bind fun records _ _ _ h'' => .pure h'' (record :: records)

theorem configPath_eq (h : s.SameBut P t) (source : String) :
    ProjectFile.configPath t root source = ProjectFile.configPath s root source := by
  unfold ProjectFile.configPath
  rw [h.canonical_eq]

theorem mirrors_record (h : s.SameBut P t) (hg : s₀.Grows s) (ha : Avoids P s₀ (ProjectFile.path root))
    (controllers : Bool) :
    Action.Mirrors P (recordResources root w order controllers) (recordResources root w order controllers) s t := by
  unfold Action.Mirrors recordResources
  rw [Action.bind_apply_ok Action.get_apply, Action.bind_apply_ok Action.get_apply,
    ProjectFile.loadSupported_congr (h.entry?_eq hg ha), configPath_eq h]
  refine (Action.Mirrors.liftExcept h rfl).bind fun existing s' t' hs h' => ?_
  obtain ⟨-, rfl⟩ := Prod.mk.inj hs
  dsimp only
  split
  · exact .pure h' _
  · exact ((h'.writeText hg ha _).relabel _).bind fun _ _ _ _ h'' => .pure h'' _

end Workload

end OperatorScaffold

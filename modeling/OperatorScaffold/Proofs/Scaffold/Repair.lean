import OperatorScaffold.Proofs.Scaffold.Forcing
import OperatorScaffold.Proofs.Scaffold.Mirror
/-!
A run that stopped at a file it cannot merge into, and the run behind the repair of the file: what was
emitted before is left as it is, and the rest comes out as if the file had never been broken.
-/

namespace OperatorScaffold

open ArtifactKind Workspace

theorem not_ofFile_mergeConflict {p : Path} {cause : Marker.Error} :
    ¬(ScaffoldError.mergeConflict p cause).OfFile := by
  rintro (⟨_, _, h⟩ | ⟨_, _, h⟩) <;> cases h

namespace Workload

variable {w : Workload} {g : Template.Registry} {o : ScaffoldOptions} {header : String}
  {s s' s₁ mid : Workspace} {order : List Resource} {x : Resource × ArtifactKind}
  {emitted rest xs : List (Resource × ArtifactKind)} {label : String} {p : Path} {cause : Marker.Error}
  {q : Place} {e : Entry} {c c' : Content} {m m' : Nat}

/-- Where an artifact cannot be merged, nothing has changed since what came before it. -/
theorem conflict_of_emit (h : w.emit g o header x s = (.error (.scaffold label (.mergeConflict p cause)), s')) :
    s' = s ∧ p = (w.artifactOf o.output x).destination ∧
      ∃ q held mode, s.locate p = .ok (q, .file (.text held) mode) ∧ Marker.Document.parse held = .error cause := by
  obtain ⟨_, hs, he⟩ := of_emit_error h
  obtain ⟨-, rfl⟩ := Error.scaffold.inj he
  obtain ⟨_, hj, hcause, rfl⟩ | ⟨v, -, hperforms⟩ := Artifact.scaffold_cases hs
  · obtain rfl := Except.error.inj hcause
    cases Artifact.fault_of_judge hj with
    | conflict _ hfound hparse =>
      obtain ⟨q, hl⟩ := locate_of_entry? hfound
      exact ⟨rfl, rfl, q, _, _, hl, hparse⟩
  · cases hperforms

/-- The metadata of a project is recorded behind the artifacts where these have an API. -/
def finish (w : Workload) (order : List Resource) (o : ScaffoldOptions) : Action Error Unit := do
  if o.scope.api then
    discard <| (recordResources o.output w order o.scope.controllers).relabel (.scaffold "PROJECT")

/-- What a run has left to do behind its first artifacts. -/
def ending (w : Workload) (order : List Resource) (g : Template.Registry) (o : ScaffoldOptions)
    (header : String) (xs : List (Resource × ArtifactKind)) : Action Error (List ScaffoldRecord) := do
  let records ← xs.mapM (w.emit g o header)
  w.finish order o
  return records

theorem scaffold_of_emitted {force : Bool} {records : List ScaffoldRecord}
    (hcheck : checkDestinations s w order (o.writing force) = .ok ())
    (hheader : Boilerplate.resolve s o.output o.boilerplate w.repository = .ok header)
    (hplan : plan o.scope [] order = emitted ++ rest)
    (hemits : emitted.mapM (w.emit g (o.writing force) header) s = (.ok records, mid)) :
    w.scaffold order g (o.writing force) s = (do
      let others ← w.ending order g (o.writing force) header rest
      return ⟨records ++ others⟩ : Action Error ScaffoldReport) mid := by
  have hplan : plan (o.writing force).scope [] order = emitted ++ rest := hplan
  rw [scaffold_of_starts ⟨hcheck, hheader⟩, hplan, List.mapM_append]
  unfold ending finish
  simp only [bind_assoc, pure_bind, Bool.not_false, Bool.and_true]
  rw [Action.bind_apply_ok hemits]
  refine congrFun (bind_congr fun others => ?_) mid
  split
  · rfl
  · rfl

theorem mirrors_ending (h : s.SameBut (fun _ => False) s') :
    Action.Mirrors (fun _ => False) (w.ending order g o header xs) (w.ending order g o header xs) s s' := by
  refine (mirrors_mapM_nowhere h xs).bind fun records _ _ _ h' => ?_
  refine Action.Mirrors.bind ?_ fun _ _ _ _ h'' => .pure h'' records
  unfold finish
  split
  · refine ((mirrors_record h' (.refl _) (avoids_nowhere _ _) _).relabel _).bind fun _ _ _ _ h'' => ?_
    exact .pure h'' _
  · exact .pure h' _

theorem ending_writing {force : Bool} (h : ∀ label p s', xs.mapM (w.emit g (o.writing false) header) s ≠
      (.error (.scaffold label (.destinationExists p)), s')) :
    w.ending order g (o.writing force) header xs s = w.ending order g (o.writing false) header xs s := by
  cases force with
  | false => rfl
  | true => exact Action.bind_congr_at (mapM_writing h) _

/-- Artifacts of a plan that were emitted one after the other. -/
theorem emitted_of_mapM {before after : List (Resource × ArtifactKind)} {records : List ScaffoldRecord}
    (hd : o.mode.dryRun = false) (h : w.LaidOut order o.scope o.output s)
    (hplan : plan o.scope [] order = before ++ emitted ++ after)
    (hmap : emitted.mapM (w.emit g o header) s = (.ok records, mid)) :
    Touches s s mid (w.destinations o.output emitted) ∧
      Between s mid (ProjectFile.path o.output :: w.destinations o.output (plan o.scope [] order))
        (w.destinations o.output emitted) ∧
      ∀ y ∈ emitted, w.AtRest g o.output header mid y := by
  obtain ⟨ht, hb, hall⟩ := h.emits hd hplan hmap
  exact ⟨ht, hb, forall_atRest hall (forall_renders hmap)⟩

/-- A run gets from `s` past the artifacts in `emitted`, and finds `e` at `q` for the next one. -/
structure Reaches (w : Workload) (order : List Resource) (g : Template.Registry) (o : ScaffoldOptions)
    (s mid : Workspace) (header : String) (emitted : List (Resource × ArtifactKind))
    (x : Resource × ArtifactKind) (rest : List (Resource × ArtifactKind)) (q : Place) (e : Entry) : Prop where
  checked : checkDestinations s w order (o.writing false) = .ok ()
  boilerplate : Boilerplate.resolve s o.output o.boilerplate w.repository = .ok header
  planned : plan o.scope [] order = emitted ++ x :: rest
  emits : ∃ records, emitted.mapM (w.emit g (o.writing false) header) s = (.ok records, mid)
  found : mid.locate (w.artifactOf o.output x).destination = .ok (q, e)

/-- A run that ends in a conflict has come to the file that it cannot merge into. -/
theorem reaches_of_conflict (h : w.scaffold order g (o.writing false) s =
      (.error (.scaffold label (.mergeConflict p cause)), s₁)) :
    ∃ header emitted x rest q held mode,
      w.Reaches order g o s s₁ header emitted x rest q (.file (.text held) mode) ∧
      p = (w.artifactOf o.output x).destination ∧ Marker.Document.parse held = .error cause := by
  cases scaffold_eq_iff.1 h with
  | refused hcheck =>
    obtain ⟨-, _, hload, he⟩ | ⟨-, -, r, -, -, he⟩ := checkDestinations_eq_error hcheck
    · obtain ⟨-, rfl⟩ := Error.scaffold.inj he
      exact absurd (ProjectFile.loadSupported_eq_error hload) not_ofFile_mergeConflict
    · cases he
  | headless _ hheader => exact absurd (Boilerplate.resolve_eq_error hheader) not_ofFile_mergeConflict
  | @failed header _ _ hstart hmap =>
    obtain ⟨emitted, x, rest, records, mid, hplan, hemits, hx⟩ := Action.mapM_eq_error hmap
    obtain ⟨rfl, rfl, q, held, mode, hfound, hparse⟩ := conflict_of_emit hx
    exact ⟨header, emitted, x, rest, q, held, mode,
      ⟨hstart.checked, hstart.boilerplate, hplan, ⟨records, hemits⟩, hfound⟩, rfl, hparse⟩
  | unrecorded _ _ _ hrec => exact absurd (recordResources_eq_error hrec) not_ofFile_mergeConflict

namespace Reaches

variable (h : w.Reaches order g o s s₁ header emitted x rest q e) (hlaid : w.LaidOut order o.scope o.output s)

include h

theorem mem_destinations : (w.artifactOf o.output x).destination ∈
    ProjectFile.path o.output :: w.destinations o.output (plan o.scope [] order) := by
  rw [h.planned]
  exact List.mem_cons_of_mem _ (List.mem_map_of_mem (by simp))

include hlaid

theorem between : Touches s s s₁ (w.destinations o.output emitted) ∧
    Between s s₁ (ProjectFile.path o.output :: w.destinations o.output (plan o.scope [] order))
      (w.destinations o.output emitted) ∧
    ∀ y ∈ emitted, w.AtRest g o.output header s₁ y := by
  obtain ⟨records, hemits⟩ := h.emits
  have hplan : plan o.scope [] order = [] ++ emitted ++ x :: rest := h.planned
  exact emitted_of_mapM (o := o.writing false) rfl hlaid hplan hemits

theorem leadsTo : s.LeadsTo (w.artifactOf o.output x).destination q :=
  ⟨s₁, e, (h.between hlaid).2.1.grows, h.found⟩

/-- The file is none of those that were emitted. -/
theorem avoids : (∀ p ∈ w.destinations o.output emitted, Avoids (· = q) s p) ∧
    Avoids (· = q) s (ProjectFile.path o.output) := by
  have hlead := h.leadsTo hlaid
  have hapart := hlaid.apart
  rw [h.planned, destinations, List.map_append] at hapart
  obtain ⟨-, -, hcross⟩ := List.pairwise_append.1 hapart
  constructor
  · rintro p hp _ rfl hq
    exact hcross p hp _ (List.mem_map_of_mem List.mem_cons_self) _ hq hlead
  · rintro _ rfl hq
    refine hlaid.project _ ?_ _ hlead hq
    rw [h.planned]
    exact List.mem_map_of_mem (by simp)

theorem at?_eq : s₁.files.at? q = some e :=
  hlaid.separate.ends _ h.mem_destinations s₁ q e (h.between hlaid).2.1.grows h.found

end Reaches

namespace Reaches

variable (h : w.Reaches order g o s s₁ header emitted x rest q (.file c m)) (hlaid : w.LaidOut order o.scope o.output s)

include h hlaid

/-- The file stood there from the start. -/
theorem file_at : s.files.at? q = some (.file c m) := by
  refine ((h.between hlaid).2.1.files q (fun p hp hlead => ?_) c m).1 (h.at?_eq hlaid)
  exact (h.avoids hlaid).1 p hp q rfl hlead

theorem place_ne_nil : q ≠ [] := by
  rintro rfl
  cases h.file_at hlaid

theorem sameBut_put (c' : Content) (m' : Nat) : s.SameBut (· = q) (s.put q (.file c' m')) :=
  sameBut_put_file (h.file_at hlaid)

/-- What comes before the file is emitted beside a repaired one as it was beside the broken one. -/
theorem emits_beside (c' : Content) (m' : Nat) : ∃ records mid,
    emitted.mapM (w.emit g (o.writing false) header) (s.put q (.file c' m')) = (.ok records, mid) ∧
      s₁.SameBut (· = q) mid := by
  obtain ⟨records, hemits⟩ := h.emits
  have hplan : plan o.scope [] order = [] ++ emitted ++ x :: rest := h.planned
  have hstart := LaidOut.midway (o := o.writing false) hlaid hplan
  obtain ⟨mid, hemits', hmid⟩ :=
    (mirrors_mapM hstart rfl (h.avoids hlaid).1 (h.sameBut_put hlaid c' m')).exists_eq hemits
  exact ⟨records, mid, hemits', hmid⟩

end Reaches

/-- With the file repaired, a run gets as far in the same way, and ends up where the one that stopped is
repaired. -/
theorem Reaches.repaired (h : w.Reaches order g o s s₁ header emitted x rest q (.file c m))
    (hv : w.validate = .ok order) (hl : s.NoLinksBelow o.output)
    (hheader : Boilerplate.resolve (s.put q (.file c' m')) o.output o.boilerplate w.repository = .ok header) :
    ∃ mid, w.Reaches order g o (s.put q (.file c' m')) mid header emitted x rest q (.file c' m') ∧
      mid.SameBut (fun _ => False) (s₁.put q (.file c' m')) := by
  have hlaid : w.LaidOut order o.scope o.output s := laidOut hv hl
  have hsame := h.sameBut_put hlaid c' m'
  have hne := h.place_ne_nil hlaid
  have hlaid' : w.LaidOut order o.scope o.output (s.put q (.file c' m')) := laidOut hv (hl.of_grows hsame.grows)
  obtain ⟨records, mid, hemits, hmid⟩ := h.emits_beside hlaid c' m'
  have hchecked : checkDestinations (s.put q (.file c' m')) w order (o.writing false) = .ok () := by
    obtain ⟨hload, hclear⟩ := checkDestinations_eq_ok_iff.1 h.checked
    refine checkDestinations_eq_ok_iff.2 ⟨fun hapi => ?_, fun hf hc r hr => ?_⟩
    · rw [ProjectFile.loadSupported_congr (hsame.entry?_eq (.refl s) (h.avoids hlaid).2)]
      exact hload hapi
    · rw [hsame.has_eq]
      exact hclear rfl hc r hr
  have hfound : mid.locate (w.artifactOf o.output x).destination = .ok (q, .file c' m') := by
    have hplan : plan o.scope [] order = [] ++ emitted ++ x :: rest := h.planned
    obtain ⟨ht, hb, -⟩ := emitted_of_mapM (o := o.writing false) rfl hlaid' hplan hemits
    have hat : mid.files.at? q = some (.file c' m') := ht.kept q _ (FileTree.at?_put_self hne) fun p hp hlead =>
      (h.avoids hlaid).1 p hp q rfl (hlead.of_grows hsame.grows)
    obtain ⟨e, -, hfound⟩ := hmid.grows.locate h.found
    obtain rfl := Option.some.inj ((hlaid'.separate.ends _ h.mem_destinations mid q e hb.grows hfound).symm.trans hat)
    exact hfound
  have hreach : w.Reaches order g o (s.put q (.file c' m')) mid header emitted x rest q (.file c' m') :=
    ⟨hchecked, hheader, h.planned, ⟨records, hemits⟩, hfound⟩
  refine ⟨mid, hreach, hmid.directory.symm, fun r => .inl ?_⟩
  by_cases hr : r = q
  · rw [hr, hreach.at?_eq hlaid']
    exact FileTree.at?_put_self hne
  · obtain hat | ⟨hq, -⟩ := hmid.files r
    · rw [hat]
      exact FileTree.at?_put_of_ne hne hr
    · exact absurd hq hr

/-- A file that was repaired is not in conflict again. -/
theorem Reaches.no_conflict {fixed : String} {d : Marker.Document}
    (h : w.Reaches order g o s mid header emitted x rest q (.file (.text fixed) m))
    (hlaid : w.LaidOut order o.scope o.output s) (hfixed : Marker.Document.parse fixed = .ok d) :
    (w.scaffold order g (o.writing false) s).1 ≠
      .error (.scaffold label (.mergeConflict (w.artifactOf o.output x).destination cause)) := by
  intro hconflict
  obtain ⟨_, _, y, _, q', held, _, hagain, hp, hparse⟩ := reaches_of_conflict (Prod.ext hconflict rfl)
  have hlead := hagain.leadsTo hlaid
  rw [← hp] at hlead
  obtain rfl := hlead.unique (h.leadsTo hlaid)
  have hat : some _ = some _ := (h.file_at hlaid).symm.trans (hagain.file_at hlaid)
  cases hat
  cases hfixed.symm.trans hparse

/-- Where the run that stopped is repaired, a further run passes over what was emitted before. -/
theorem Reaches.resumed {force : Bool} (h : w.Reaches order g o s s₁ header emitted x rest q (.file c m))
    (hlaid : w.LaidOut order o.scope o.output s)
    (hheader : Boilerplate.resolve (s₁.put q (.file c' m')) o.output o.boilerplate w.repository = .ok header)
    (hload : o.scope.api → ∃ existing, ProjectFile.loadSupported (s₁.put q (.file c' m')) o.output = .ok existing)
    (hclear : force = false → o.scope.controllers → ∀ r ∈ order, ¬s₁.has (w.controllerOf o.output r).destination) :
    ∃ records notices, w.scaffold order g (o.writing force) (s₁.put q (.file c' m')) = (do
      let others ← w.ending order g (o.writing force) header (x :: rest)
      return ⟨records ++ others⟩ : Action Error ScaffoldReport) { s₁.put q (.file c' m') with notices } := by
  obtain ⟨-, hb, hrest⟩ := h.between hlaid
  have hsame : s₁.SameBut (· = q) (s₁.put q (.file c' m')) := sameBut_put_file (h.at?_eq hlaid)
  have hrest' : ∀ y ∈ emitted, w.AtRest g o.output header (s₁.put q (.file c' m')) y := by
    intro y hy
    obtain ⟨r, e, hl, hdone⟩ := hrest y hy
    exact ⟨r, e, (hsame.locate_eq hb.grows ((h.avoids hlaid).1 _ (List.mem_map_of_mem hy))).trans hl, hdone⟩
  have hnone (hf : force = false) (y : Resource × ArtifactKind) (hy : y ∈ emitted) : y.2 ≠ .controller := by
    intro hk
    have hplan : y ∈ plan o.scope [] order := by simp [h.planned, hy]
    have hin : o.scope.controllers = true := by
      have := includes_of_mem_plan hplan
      rwa [hk] at this
    obtain ⟨r, e, hl, -⟩ := hrest y hy
    refine hclear hf hin y.1 (mem_plan hplan).1 (has_iff.2 ⟨r, e, ?_⟩)
    rwa [artifactOf, hk] at hl
  obtain ⟨records, notices, hemits⟩ := mapM_settled hrest' hnone
  have hcheck : checkDestinations (s₁.put q (.file c' m')) w order (o.writing force) = .ok () := by
    refine checkDestinations_eq_ok_iff.2 ⟨hload, fun hf hc r hr => ?_⟩
    rw [hsame.has_eq]
    exact hclear hf hc r hr
  exact ⟨records, notices, scaffold_of_emitted hcheck hheader h.planned hemits⟩

/-- A run that ends well has found metadata that it supports, also where it was found later. -/
theorem supported_of_ending {records : List ScaffoldRecord} (hlaid : w.LaidOut order o.scope o.output s)
    (hd : o.mode.dryRun = false) (hplan : plan o.scope [] order = emitted ++ xs) (hapi : o.scope.api)
    (h : w.ending order g o header xs s = (.ok records, s')) :
    ∃ existing, ProjectFile.loadSupported s o.output = .ok existing := by
  unfold ending finish at h
  obtain ⟨f, -, he⟩ | ⟨records', mid, hmap, h⟩ := Action.bind_apply h
  · cases he
  rw [if_pos hapi] at h
  have hload : ∃ existing, ProjectFile.loadSupported mid o.output = .ok existing := by
    cases hload : ProjectFile.loadSupported mid o.output with
    | ok existing => exact ⟨existing, rfl⟩
    | error f =>
      have hrec : recordResources o.output w order o.scope.controllers mid = (.error f, mid) :=
        ProjectFile.recordResources_eq_iff.2 (.refused hload)
      rw [Action.bind_apply_error (Action.discard_error (Action.relabel_error _ hrec))] at h
      cases h
  by_cases hhas : s.has (ProjectFile.path o.output)
  · obtain ⟨q, e, hl⟩ := has_iff.1 hhas
    have hplan' : plan o.scope [] order = emitted ++ xs ++ [] := by rw [hplan, List.append_nil]
    obtain ⟨-, hb, -⟩ := emitted_of_mapM hd hlaid hplan' hmap
    have hl' := hb.locate hlaid.separate List.mem_cons_self (fun p hp => ?_) hl
    · rwa [← ProjectFile.loadSupported_congr ((entry?_of_locate hl').trans (entry?_of_locate hl).symm)]
    · refine (hlaid.project p ?_).symm
      rw [hplan]
      exact List.map_subset _ (List.subset_append_right _ _) hp
  · refine ⟨none, ?_⟩
    unfold ProjectFile.loadSupported ProjectFile.load
    rw [if_neg hhas]
    rfl

/-- Nothing keeps the rest of a run from being emitted, with force or without. -/
def Unhindered (w : Workload) (g : Template.Registry) (o : ScaffoldOptions) (header : String) (s : Workspace)
    (xs : List (Resource × ArtifactKind)) : Prop :=
  (o.scope.api → ∃ existing, ProjectFile.loadSupported s o.output = .ok existing) ∧
    ∀ label p s', xs.mapM (w.emit g (o.writing false) header) s ≠
      (.error (.scaffold label (.destinationExists p)), s')

theorem Unhindered.sameBut (h : w.Unhindered g o header s xs) (hs : s.SameBut (fun _ => False) s') :
    o.scope.api → ∃ existing, ProjectFile.loadSupported s' o.output = .ok existing := by
  rw [ProjectFile.loadSupported_congr (hs.entry?_eq (.refl s) (avoids_nowhere _ _))]
  exact h.1

theorem Reaches.unhindered_of_ok {report : ScaffoldReport}
    (h : w.Reaches order g o s mid header emitted x rest q e) (hv : w.validate = .ok order)
    (hl : s.NoLinksBelow o.output) (hok : (w.scaffold order g (o.writing false) s).1 = .ok report) :
    w.Unhindered g o header mid (x :: rest) := by
  obtain ⟨records, hemits⟩ := h.emits
  rw [scaffold_of_emitted h.checked h.boilerplate h.planned hemits] at hok
  cases hending : w.ending order g (o.writing false) header (x :: rest) mid with
  | mk r last =>
    cases r with
    | error f =>
      rw [Action.bind_apply_error hending] at hok
      cases hok
    | ok others =>
      refine ⟨fun hapi => ?_, fun label p s' hexists => ?_⟩
      · have hg := (h.between (laidOut hv hl)).2.1.grows
        have hlaid : w.LaidOut order o.scope o.output mid := laidOut hv (hl.of_grows hg)
        exact supported_of_ending (o := o.writing false) hlaid rfl h.planned hapi hending
      · unfold ending at hending
        rw [Action.bind_apply_error hexists] at hending
        cases hending

theorem Reaches.unhindered_of_clear (h : w.Reaches order g o s mid header emitted x rest q e)
    (hv : w.validate = .ok order) (hl : s.NoLinksBelow o.output)
    (hc : ∀ p ∈ w.written order o, ¬s.Obscured o.output p) : w.Unhindered g o header mid (x :: rest) := by
  obtain ⟨records, hemits⟩ := h.emits
  refine ⟨fun hapi => ?_, fun label p s' hexists => ?_⟩
  · have hpath : ¬s.Obscured o.output (ProjectFile.path o.output) := hc _ (by simp [written, hapi])
    have hentry := entry?_of_emitted (o := o.writing false) hv rfl hl h.planned hemits _ List.mem_cons_self hpath
    rw [ProjectFile.loadSupported_congr hentry]
    exact (checkDestinations_eq_ok_iff.1 h.checked).1 hapi
  · obtain ⟨before, y, after, _, _, hplan, -, hy⟩ := Action.mapM_eq_error hexists
    have hin : o.scope.controllers := by
      have hmem : y ∈ plan o.scope [] order := by simp [h.planned, hplan]
      have := includes_of_mem_plan hmem
      rwa [(refuses_of_emit hy).1] at this
    have hclear : ∀ r ∈ order, ¬s.Obscured o.output (w.controllerOf o.output r).destination := by
      intro r hr
      have hmem : (w.artifactOf o.output (r, .controller)).destination ∈
          w.destinations o.output (plan o.scope [] order) :=
        List.mem_map.2 ⟨_, mem_plan_of_includes (k := .controller) (by decide) hin hr, rfl⟩
      exact hc _ (List.mem_append_right _ hmem)
    have hrun : w.scaffold order g (o.writing false) s = (.error (.scaffold label (.destinationExists p)), s') := by
      rw [scaffold_of_emitted h.checked h.boilerplate h.planned hemits]
      unfold ending
      exact Action.bind_apply_error (Action.bind_apply_error hexists)
    exact no_destination_exists_after_check (o := o.writing false) hv hl hclear h.checked hrun

/-- Two runs end in the same way: both well, or for the same reason, and with the same files. -/
def EndsAs (x y : Except Error ScaffoldReport × Workspace) : Prop :=
  (∀ f, y.1 = .error f ↔ x.1 = .error f) ∧ ∀ place, y.2.files.at? place = x.2.files.at? place

/-- What is left to emit comes to the same end in workspaces with the same files. -/
theorem endsAs_of_ending {o' : ScaffoldOptions} {records records' : List ScaffoldRecord}
    (hs : s.SameBut (fun _ => False) s')
    (h : w.ending order g o' header xs s = w.ending order g o header xs s) :
    EndsAs
      ((do let others ← w.ending order g o header xs; return ⟨records ++ others⟩ : Action Error ScaffoldReport) s)
      ((do let others ← w.ending order g o' header xs; return ⟨records' ++ others⟩ : Action Error ScaffoldReport)
        s') := by
  cases hending : w.ending order g o header xs s with
  | mk r last =>
    obtain ⟨last', hlast, hsame⟩ := (mirrors_ending hs).exists_eq (h.trans hending)
    cases r with
    | error f =>
      rw [Action.bind_apply_error hending, Action.bind_apply_error hlast]
      exact ⟨fun _ => .rfl, hsame.at?_eq⟩
    | ok others =>
      rw [Action.bind_apply_ok hending, Action.bind_apply_ok hlast]
      exact ⟨fun _ => ⟨nofun, nofun⟩, hsame.at?_eq⟩

/-- A run that stopped at a file it cannot merge into is completed by a further run, once the file is
repaired: this ends as if the file had not been broken when the first run started. Where a controller is
there by then, the further run has to be forced. -/
theorem rerun_completes (hv : w.validate = .ok order) (hl : s.NoLinksBelow o.output)
    (h : w.scaffold order g (o.writing false) s = (.error (.scaffold label (.mergeConflict p cause)), s₁)) :
    ∃ q held mode, s₁.locate p = .ok (q, .file (.text held) mode) ∧
      s.files.at? q = some (.file (.text held) mode) ∧ Marker.Document.parse held = .error cause ∧
      ∀ fixed mode' d repaired resumed, Marker.Document.parse fixed = .ok d →
        repaired = s.put q (.file (.text fixed) mode') → resumed = s₁.put q (.file (.text fixed) mode') →
        Boilerplate.resolve repaired o.output o.boilerplate w.repository =
          Boilerplate.resolve s o.output o.boilerplate w.repository →
        Boilerplate.resolve resumed o.output o.boilerplate w.repository =
          Boilerplate.resolve s o.output o.boilerplate w.repository →
        (∀ label' cause', (w.scaffold order g (o.writing false) repaired).1 ≠
          .error (.scaffold label' (.mergeConflict p cause'))) ∧
        ∀ force,
          (force = false → o.scope.controllers → ∀ r ∈ order, ¬s₁.has (w.controllerOf o.output r).destination) →
          (∃ report, (w.scaffold order g (o.writing false) repaired).1 = .ok report) ∨
            (∀ p ∈ w.written order o, ¬s.Obscured o.output p) →
          EndsAs (w.scaffold order g (o.writing false) repaired) (w.scaffold order g (o.writing force) resumed) := by
  obtain ⟨header, emitted, x, rest, q, held, mode, hreach, rfl, hparse⟩ := reaches_of_conflict h
  have hlaid : w.LaidOut order o.scope o.output s := laidOut hv hl
  refine ⟨q, held, mode, hreach.found, hreach.file_at hlaid, hparse, ?_⟩
  rintro fixed mode' d _ _ hfixed rfl rfl hrepaired hresumed
  have hsame := hreach.sameBut_put hlaid (.text fixed) mode'
  have hl' := hl.of_grows hsame.grows
  obtain ⟨mid, hmid, hagree⟩ := hreach.repaired hv hl (hrepaired.trans hreach.boilerplate)
  refine ⟨fun _ _ => hmid.no_conflict (laidOut hv hl') hfixed, fun force hclear hwell => ?_⟩
  have hunhindered : w.Unhindered g o header mid (x :: rest) := by
    obtain ⟨report, hok⟩ | hc := hwell
    · exact hmid.unhindered_of_ok hv hl' hok
    · exact hmid.unhindered_of_clear hv hl' fun p hp => hsame.not_obscured (hc p hp)
  obtain ⟨records, hemits⟩ := hmid.emits
  obtain ⟨records', notices, hagain⟩ :=
    hreach.resumed hlaid (hresumed.trans hreach.boilerplate) (hunhindered.sameBut hagree) hclear
  rw [scaffold_of_emitted hmid.checked hmid.boilerplate hmid.planned hemits, hagain]
  exact endsAs_of_ending (hagree.notices mid.notices notices) (ending_writing hunhindered.2)

end Workload

/-!
Three resources with their manifests, some of which cannot be merged into.
-/

namespace Basket

open Workload

def resource (name kind plural : String) : Resource :=
  ⟨name, .component, "apps", "v1", kind, plural, true, [], [], [], none, false, "a.yaml"⟩

def order : List Resource :=
  [resource "apple" "Apple" "apples", resource "berry" "Berry" "berries", resource "cherry" "Cherry" "cherries"]

def workload : Workload := ⟨"w", "a.yaml", "r", ⟨"apps", "v1", none, true⟩, order, []⟩

theorem validate_workload : workload.validate = .ok order :=
  validate_of_names (fun _ h => h) (by decide +kernel)

def options (controllers : Bool) : ScaffoldOptions := Queue.options ⟨false, true, false, false, controllers⟩

def place (name : String) : Place := ["out", "config", "manifests", "apps_v1_" ++ name ++ ".yaml"]

def space (manifests : List (String × Entry)) : Workspace :=
  ⟨⟨[(["out"], .directory), (["out", "config"], .directory), (["out", "config", "manifests"], .directory)] ++
    manifests.map fun (name, e) => (place name, e)⟩, [], []⟩

def broken : Entry := .file (.text "# +opforge:static:begin:x\n") 0o644

def fixed : Entry := .file (.text "") 0o644

theorem parse_fixed : ∃ d, Marker.Document.parse "" = .ok d := ⟨_, rfl⟩

theorem resolve_eq {s : Workspace} (h : (s.isFile ⟨"out/hack/boilerplate.go.txt"⟩) = false) :
    Boilerplate.resolve s ⟨"out"⟩ none "r" = .ok "// Scaffolded by opforge for r." := by
  unfold Boilerplate.resolve
  dsimp only
  rw [show (⟨"out"⟩ : Path).join Boilerplate.relativePath = ⟨"out/hack/boilerplate.go.txt"⟩ by decide, h]
  rfl

def run (controllers force : Bool) (s : Workspace) : Except Error ScaffoldReport × Workspace :=
  workload.scaffold order Queue.registry ((options controllers).writing force) s

/-- A run stops at a file that it cannot merge into, and leaves what passes a check. -/
def stops (controllers : Bool) (s : Workspace) (q : Place) (check : Workspace → Bool) : Bool :=
  match run controllers false s with
  | (.error (.scaffold _ (.mergeConflict p _)), s₁) =>
    match s₁.locate p with
    | .ok (q', _) => q' = q && check s₁
    | .error _ => false
  | _ => false

theorem of_stops {controllers : Bool} {s : Workspace} {q : Place} {check : Workspace → Bool}
    (h : stops controllers s q check) : ∃ label p cause e s₁,
      run controllers false s = (.error (.scaffold label (.mergeConflict p cause)), s₁) ∧
      s₁.locate p = .ok (q, e) ∧ check s₁ := by
  unfold stops at h
  split at h
  next label p cause s₁ hrun =>
    split at h
    next q' e hl =>
      simp only [Bool.and_eq_true, decide_eq_true_eq] at h
      obtain ⟨rfl, hcheck⟩ := h
      exact ⟨label, p, cause, e, s₁, hrun, hl, hcheck⟩
    next => cases h
  next => cases h

def isConflict : Except Error ScaffoldReport → Bool
  | .error (.scaffold _ (.mergeConflict _ _)) => true
  | _ => false

theorem of_isConflict {r : Except Error ScaffoldReport} (h : isConflict r) :
    ∃ label p cause, r = .error (.scaffold label (.mergeConflict p cause)) := by
  unfold isConflict at h
  split at h
  next label p cause => exact ⟨label, p, cause, rfl⟩
  next => cases h

/-- The manifests of the berry are broken, and those of the cherry may be. -/
def spoiled (cherry : List (String × Entry)) : Workspace := space (("berry", broken) :: cherry)

theorem rerun_completes_with_force :
    ∃ label p cause s₁, workload.validate = .ok order ∧ (spoiled []).NoLinksBelow (options true).output ∧
      run true false (spoiled []) = (.error (.scaffold label (.mergeConflict p cause)), s₁) ∧
      (∃ report, (run true false ((spoiled []).put (place "berry") fixed)).1 = .ok report) ∧
      EndsAs (run true false ((spoiled []).put (place "berry") fixed))
        (run true true (s₁.put (place "berry") fixed)) := by
  have hstops : stops true (spoiled []) (place "berry") fun s₁ =>
      !(s₁.put (place "berry") fixed).isFile ⟨"out/hack/boilerplate.go.txt"⟩ := by
    decide +kernel
  have hok : (run true false ((spoiled []).put (place "berry") fixed)).1.toOption.isSome := by decide +kernel
  have hlinks : (spoiled []).NoLinksBelow (options true).output :=
    noLinksBelow_of_entries (by simp [spoiled, space, broken])
  obtain ⟨report, hok⟩ : ∃ report, (run true false ((spoiled []).put (place "berry") fixed)).1 = .ok report := by
    cases h : (run true false ((spoiled []).put (place "berry") fixed)).1 with
    | ok report => exact ⟨report, rfl⟩
    | error f =>
      rw [h] at hok
      cases hok
  obtain ⟨label, p, cause, e, s₁, hrun, hl, hfree⟩ := of_stops hstops
  obtain ⟨q, held, mode, hl', -, -, hrepaired⟩ :=
    rerun_completes (o := options true) (g := Queue.registry) validate_workload hlinks hrun
  obtain ⟨rfl, -⟩ := Prod.mk.inj (Except.ok.inj (hl.symm.trans hl'))
  obtain ⟨d, hparse⟩ := parse_fixed
  have hstart : (spoiled []).isFile ⟨"out/hack/boilerplate.go.txt"⟩ = false := by decide
  have hput : ((spoiled []).put (place "berry") fixed).isFile ⟨"out/hack/boilerplate.go.txt"⟩ = false := by
    decide
  have hresumed : (s₁.put (place "berry") fixed).isFile ⟨"out/hack/boilerplate.go.txt"⟩ = false := by
    simpa using hfree
  obtain ⟨-, hends⟩ := hrepaired "" 0o644 d _ _ hparse rfl rfl ((resolve_eq hput).trans (resolve_eq hstart).symm)
    ((resolve_eq hresumed).trans (resolve_eq hstart).symm)
  exact ⟨label, p, cause, s₁, validate_workload, hlinks, hrun, ⟨report, hok⟩, hends true nofun (.inl ⟨report, hok⟩)⟩

/-- The manifests of the apple are a link to those of the berry, which hold the text of the apple. -/
def linked : Workspace :=
  space [("apple", .link ⟨"apps_v1_berry.yaml"⟩), ("berry", .file (.text "apple\n") 0o644), ("cherry", broken)]

/-- With the same options, the run behind the repair is refused by a controller that the first run wrote,
or stops at the next file that cannot be merged into. Behind a link it can leave another tree. -/
theorem rerun_with_the_same_options_fails :
    workload.validate = .ok order ∧
    (∃ label p cause e s₁, run true false (spoiled []) = (.error (.scaffold label (.mergeConflict p cause)), s₁) ∧
      s₁.locate p = .ok (place "berry", e) ∧
      ∃ label' p', (run true false (s₁.put (place "berry") fixed)).1 =
        .error (.scaffold label' (.destinationExists p'))) ∧
    (∃ label p cause e s₁, run false false (spoiled [("cherry", broken)]) =
        (.error (.scaffold label (.mergeConflict p cause)), s₁) ∧ s₁.locate p = .ok (place "berry", e) ∧
      ∃ label' p' cause', (run false false (s₁.put (place "berry") fixed)).1 =
        .error (.scaffold label' (.mergeConflict p' cause'))) ∧
    ∃ label p cause e s₁, run false false linked = (.error (.scaffold label (.mergeConflict p cause)), s₁) ∧
      s₁.locate p = .ok (place "cherry", e) ∧
      (run false false (s₁.put (place "cherry") fixed)).2.files.at? (place "apple") ≠
        (run false false (linked.put (place "cherry") fixed)).2.files.at? (place "apple") := by
  have hrefused : stops true (spoiled []) (place "berry") fun s₁ =>
      isDestinationExists (run true false (s₁.put (place "berry") fixed)).1 := by
    decide +kernel
  have hconflict : stops false (spoiled [("cherry", broken)]) (place "berry") fun s₁ =>
      isConflict (run false false (s₁.put (place "berry") fixed)).1 := by
    decide +kernel
  have hdiffer : stops false linked (place "cherry") fun s₁ =>
      (run false false (s₁.put (place "cherry") fixed)).2.files.at? (place "apple") ≠
        (run false false (linked.put (place "cherry") fixed)).2.files.at? (place "apple") := by
    decide +kernel
  refine ⟨validate_workload, ?_, ?_, ?_⟩
  · obtain ⟨label, p, cause, e, s₁, hrun, hl, hcheck⟩ := of_stops hrefused
    exact ⟨label, p, cause, e, s₁, hrun, hl, of_isDestinationExists hcheck⟩
  · obtain ⟨label, p, cause, e, s₁, hrun, hl, hcheck⟩ := of_stops hconflict
    exact ⟨label, p, cause, e, s₁, hrun, hl, of_isConflict hcheck⟩
  · obtain ⟨label, p, cause, e, s₁, hrun, hl, hcheck⟩ := of_stops hdiffer
    exact ⟨label, p, cause, e, s₁, hrun, hl, of_decide_eq_true hcheck⟩

end Basket

end OperatorScaffold

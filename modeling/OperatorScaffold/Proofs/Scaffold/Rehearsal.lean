import OperatorScaffold.Proofs.Graph.Agreement
import OperatorScaffold.Proofs.Scaffold.Foretelling
import OperatorScaffold.Proofs.Scaffold.Run
/-!
A dry run, and the run it foretells: each artifact is judged by the same file in both, as long as no
other artifact is written where it is.
-/

namespace OperatorScaffold

open ArtifactKind Workspace

def ScaffoldOptions.withDryRun (o : ScaffoldOptions) (dryRun : Bool) : ScaffoldOptions :=
  { o with mode := { o.mode with dryRun } }

namespace ProjectFile

variable {s s' : Workspace} {root : Path}

theorem load_congr (h : s'.entry? (path root) = s.entry? (path root)) : load s' root = load s root := by
  have hhas : s'.has (path root) = s.has (path root) := by rw [has_eq_isSome, has_eq_isSome, h]
  unfold load
  rw [hhas]
  split
  next hp => rw [readText_congr hp h]
  next => rfl

theorem loadSupported_congr (h : s'.entry? (path root) = s.entry? (path root)) :
    loadSupported s' root = loadSupported s root := by
  unfold loadSupported
  rw [load_congr h]

end ProjectFile

namespace Workload

variable {w : Workload} {g : Template.Registry} {o : ScaffoldOptions} {header : String}
  {start s s' : Workspace} {order : List Resource} {notices : List Notice} {dests : List Path}
  {xs done : List (Resource × ArtifactKind)}

/-- A run ended where the text of one of these files could not be written. -/
def WriteFailed (paths : List Path) (s' : Workspace) (e : Error) : Prop :=
  ∃ p ∈ paths, ∃ label cause, e = .scaffold label cause ∧ Artifact.WriteFailed p s' cause

theorem WriteFailed.mono {paths paths' : List Path} {e : Error} (h : WriteFailed paths s' e)
    (hp : paths ⊆ paths') : WriteFailed paths' s' e := by
  obtain ⟨p, hmem, h⟩ := h
  exact ⟨p, hp hmem, h⟩

variable (w g header s notices) in
theorem emit_dry (hd : o.mode.dryRun = true) (x : Resource × ArtifactKind) :
    ∃ notices', w.emit g o header x { s with notices } =
      (w.foretell g o header x (s.entry? (w.artifactOf o.output x).destination),
        { s with notices := notices' }) := by
  cases h : w.emit g o header x { s with notices } with
  | mk r s' =>
    obtain ⟨hdry, hcase⟩ := emit_foretold h
    obtain ⟨notices', rfl⟩ := hdry hd
    obtain rfl | ⟨hd', -⟩ := hcase
    · exact ⟨notices', rfl⟩
    · simp [hd] at hd'

variable (w g header s notices) in
/-- A dry run of some artifacts gives what is foretold of each by the workspace it starts in. -/
theorem mapM_dry (hd : o.mode.dryRun = true) (xs : List (Resource × ArtifactKind)) :
    ∃ notices', xs.mapM (w.emit g o header) { s with notices } =
      (xs.mapM fun x => w.foretell g o header x (s.entry? (w.artifactOf o.output x).destination),
        { s with notices := notices' }) := by
  induction xs generalizing notices with
  | nil => exact ⟨notices, rfl⟩
  | cons x xs ih =>
    obtain ⟨mid, hx⟩ := emit_dry w g header s notices hd x
    obtain ⟨last, hxs⟩ := ih mid
    rw [List.mapM_cons, List.mapM_cons]
    cases hf : w.foretell g o header x (s.entry? (w.artifactOf o.output x).destination) with
    | error e =>
      rw [hf] at hx
      rw [Action.bind_apply_error hx]
      exact ⟨mid, rfl⟩
    | ok record =>
      rw [hf] at hx
      rw [Action.bind_apply_ok hx]
      generalize (xs.mapM fun x => w.foretell g o header x _) = rest at hxs
      cases rest with
      | error e =>
        rw [Action.bind_apply_error hxs]
        exact ⟨last, rfl⟩
      | ok records =>
        rw [Action.bind_apply_ok hxs]
        exact ⟨last, rfl⟩

/-- Artifacts that are emitted become what is foretold of each by the workspace at the start, unless one
of them cannot be written. -/
theorem mapM_foretold {r : Except Error (List ScaffoldRecord)} (hm : w.Midway o start s dests done xs)
    (hd : o.mode.dryRun = false) (hc : ∀ p ∈ w.destinations o.output xs, ¬start.Obscured o.output p)
    (h : xs.mapM (w.emit g o header) s = (r, s')) :
    r = (xs.mapM fun x => w.foretell g o header x (start.entry? (w.artifactOf o.output x).destination)) ∨
      ∃ e, r = .error e ∧ WriteFailed (w.destinations o.output xs) s' e := by
  -- on what is left to emit: the start is seen in every workspace on the way
  induction xs generalizing done s s' r with
  | nil =>
    obtain ⟨rfl, rfl⟩ := Prod.mk.inj h
    exact .inl rfl
  | cons x xs ih =>
    obtain ⟨hcx, hcxs⟩ := List.forall_mem_cons.1 hc
    have hentry := hm.between.entry?_eq hm.separate hm.head_inside hm.head_free hcx
    have hfirst {r : Except Error ScaffoldRecord} {mid : Workspace}
        (hone : w.emit g o header x s = (r, mid)) :
        r = w.foretell g o header x (start.entry? (w.artifactOf o.output x).destination) ∨
          ∃ e, r = .error e ∧ WriteFailed (w.destinations o.output (x :: xs)) mid e := by
      obtain ⟨-, rfl | ⟨-, e, rfl, hw⟩⟩ := emit_foretold hone
      · rw [hentry]
        exact .inl rfl
      · exact .inr ⟨_, rfl, _, List.mem_cons_self, _, _, rfl, hw⟩
    rw [List.mapM_cons]
    obtain ⟨e, hone, rfl⟩ | ⟨record, mid, r', hone, hrest, rfl⟩ := Action.mapM_cons_apply h
    · obtain he | ⟨e', he, hw⟩ := hfirst hone
      · rw [← he]
        exact .inl rfl
      · exact .inr ⟨e', congrArg _ (Except.error.inj he), hw⟩
    · obtain he | ⟨_, he, -⟩ := hfirst hone
      · rw [← he]
        obtain ⟨-, ⟨_, he', -⟩ | ⟨_, -, hm₁, -⟩⟩ := hm.step hd hone
        · cases he'
        obtain rfl | ⟨e, rfl, hw⟩ := ih hm₁ hcxs hrest
        · exact .inl rfl
        · exact .inr ⟨e, rfl, hw.mono (List.subset_cons_self _ _)⟩
      · cases he

theorem recordResources_of_supported {root : Path} {controllers : Bool} {existing : Option ProjectFile}
    {r : Except ScaffoldError WriteOutcome} (hload : ProjectFile.loadSupported s root = .ok existing)
    (h : recordResources root w order controllers s = (r, s')) : (∃ outcome, r = .ok outcome) ∨
      ∃ e, r = .error e ∧ Artifact.WriteFailed (ProjectFile.path root) s' e := by
  cases ProjectFile.recordResources_eq_iff.1 h with
  | refused hrefused => cases hload.symm.trans hrefused
  | same => exact .inl ⟨_, rfl⟩
  | failed _ _ hwrite => exact .inr ⟨_, rfl, _, _, _, _, hwrite, rfl⟩
  | written => exact .inl ⟨_, rfl⟩

theorem recordResources_eq_error {root : Path} {controllers : Bool} {e : ScaffoldError}
    (h : recordResources root w order controllers s = (.error e, s')) : e.OfFile := by
  cases ProjectFile.recordResources_eq_iff.1 h with
  | refused hload => exact ProjectFile.loadSupported_eq_error hload
  | failed => exact .inl ⟨_, _, rfl⟩

/-- Why a run can fail: by a file, by a controller that is there, or by what an artifact finds. -/
theorem scaffold_eq_error {e : Error} (h : w.scaffold order g o s = (.error e, s')) :
    ∃ label cause, e = .scaffold label cause ∧ (cause.OfFile ∨ (∃ p, cause = .destinationExists p) ∨
      ∃ header, Boilerplate.resolve s o.output o.boilerplate w.repository = .ok header ∧
        ∃ x ∈ plan o.scope [] order, ∃ found,
          (w.artifactOf o.output x).Fault g o.mode.force (.of w x.1 header) found cause) := by
  cases scaffold_eq_iff.1 h with
  | refused hcheck =>
    obtain ⟨-, cause, hload, rfl⟩ | ⟨-, -, r, -, -, rfl⟩ := checkDestinations_eq_error hcheck
    · exact ⟨_, cause, rfl, .inl (ProjectFile.loadSupported_eq_error hload)⟩
    · exact ⟨_, _, rfl, .inr (.inl ⟨_, rfl⟩)⟩
  | headless _ hheader => exact ⟨_, _, rfl, .inl (Boilerplate.resolve_eq_error hheader)⟩
  | @failed header _ _ hstart hmap =>
    obtain ⟨_, x, _, _, mid, hplan, -, hx⟩ := Action.mapM_eq_error hmap
    obtain ⟨cause, rfl, hfault | ⟨-, _, _, _, _, -, rfl⟩⟩ := emit_eq_error hx
    · exact ⟨_, cause, rfl, .inr (.inr ⟨header, hstart.boilerplate, x, by simp [hplan], _, hfault⟩)⟩
    · exact ⟨_, _, rfl, .inl (.inl ⟨_, _, rfl⟩)⟩
  | unrecorded _ _ _ hrec => exact ⟨_, _, rfl, .inl (recordResources_eq_error hrec)⟩

/-- The destinations of a run, and the metadata of the project where it is recorded. -/
def written (w : Workload) (order : List Resource) (o : ScaffoldOptions) : List Path :=
  (if o.scope.api then [ProjectFile.path o.output] else []) ++
    w.destinations o.output (plan o.scope [] order)

/-- The result of a run, by what each artifact finds in one workspace. -/
def foretellAll (w : Workload) (order : List Resource) (g : Template.Registry) (o : ScaffoldOptions)
    (s : Workspace) : Except Error ScaffoldReport := do
  checkDestinations s w order o
  let header ← (Boilerplate.resolve s o.output o.boilerplate w.repository).mapError (.scaffold w.name)
  let records ← (plan o.scope [] order).mapM fun x =>
    w.foretell g o header x (s.entry? (w.artifactOf o.output x).destination)
  return ⟨records⟩

theorem foretellAll_of_starts {records : Except Error (List ScaffoldRecord)} (h : w.Starts order o s header)
    (hrecords : ((plan o.scope [] order).mapM fun x =>
      w.foretell g o header x (s.entry? (w.artifactOf o.output x).destination)) = records) :
    w.foretellAll order g o s = records.map ScaffoldReport.mk := by
  unfold foretellAll
  rw [h.checked, h.boilerplate, ← hrecords]
  rfl

theorem foretellAll_of_refused {e : Error} (h : checkDestinations s w order o = .error e) :
    w.foretellAll order g o s = .error e := by
  unfold foretellAll
  rw [h]
  rfl

theorem foretellAll_of_headless {cause : ScaffoldError} (hcheck : checkDestinations s w order o = .ok ())
    (h : Boilerplate.resolve s o.output o.boilerplate w.repository = .error cause) :
    w.foretellAll order g o s = .error (.scaffold w.name cause) := by
  unfold foretellAll
  rw [hcheck, h]
  rfl

variable (w order g s) in
theorem scaffold_dry (hd : o.mode.dryRun = true) :
    ∃ notices, w.scaffold order g o s = (w.foretellAll order g o s, { s with notices }) := by
  have hforetold {header : String} {r : Except Error (List ScaffoldRecord)} {s' : Workspace}
      (hstart : w.Starts order o s header) (hmap : (plan o.scope [] order).mapM (w.emit g o header) s = (r, s')) :
      w.foretellAll order g o s = r.map ScaffoldReport.mk ∧ ∃ notices, s' = { s with notices } := by
    obtain ⟨notices, hdry⟩ := mapM_dry w g header s s.notices hd (plan o.scope [] order)
    obtain ⟨hrecords, rfl⟩ := Prod.mk.inj (hdry.symm.trans hmap)
    exact ⟨foretellAll_of_starts hstart hrecords, notices, rfl⟩
  have hunrecorded : (o.scope.api && !o.mode.dryRun) = false := by simp [hd]
  obtain ⟨r, s', h⟩ := exists_runsTo w g o s order
  rw [h.scaffold_eq]
  cases h with
  | refused hcheck => exact ⟨s.notices, by rw [foretellAll_of_refused hcheck]⟩
  | headless hcheck hheader => exact ⟨s.notices, by rw [foretellAll_of_headless hcheck hheader]⟩
  | failed hstart hmap =>
    obtain ⟨hr, notices, rfl⟩ := hforetold hstart hmap
    exact ⟨notices, by rw [hr]; rfl⟩
  | emitted hstart hmap _ =>
    obtain ⟨hr, notices, rfl⟩ := hforetold hstart hmap
    exact ⟨notices, by rw [hr]; rfl⟩
  | recorded _ _ hapi _ => cases hunrecorded.symm.trans hapi
  | unrecorded _ _ hapi _ => cases hunrecorded.symm.trans hapi

/-- Artifacts that were emitted leave what is found at the other destinations as it was. -/
theorem entry?_of_emitted {emitted rest : List (Resource × ArtifactKind)}
    {r : Except Error (List ScaffoldRecord)} (hv : w.validate = .ok order) (hd : o.mode.dryRun = false)
    (hl : s.NoLinksBelow o.output) (hplan : plan o.scope [] order = emitted ++ rest)
    (hmap : emitted.mapM (w.emit g o header) s = (r, s')) :
    ∀ p ∈ ProjectFile.path o.output :: w.destinations o.output rest,
      ¬s.Obscured o.output p → s'.entry? p = s.entry? p := by
  intro p hp hc
  have hlaid : w.LaidOut order o.scope o.output s := laidOut hv hl
  have hfront : plan o.scope [] order = [] ++ emitted ++ rest := hplan
  obtain ⟨-, done, last, _, _, rfl, -, -, hb, -⟩ := (hlaid.midway hfront).run hd hmap
  rw [List.append_nil] at hb
  have hsub : w.destinations o.output done ⊆ w.destinations o.output (done ++ last) :=
    List.map_subset _ (List.subset_append_left _ _)
  refine (hb.weaken hsub).entry?_eq hlaid.separate ?_ (apart_rest hplan hlaid.apart hlaid.project p hp) hc
  rw [hplan, destinations, List.map_append]
  obtain rfl | hp := List.mem_cons.1 hp
  · exact List.mem_cons_self
  · exact List.mem_cons_of_mem _ (List.mem_append_right _ hp)

theorem starts_foretold {r : Except Error (List ScaffoldRecord)} (hv : w.validate = .ok order)
    (hd : o.mode.dryRun = false) (hl : s.NoLinksBelow o.output)
    (hc : ∀ p ∈ w.written order o, ¬s.Obscured o.output p) (hstart : w.Starts order o s header)
    (hmap : (plan o.scope [] order).mapM (w.emit g o header) s = (r, s')) :
    r.map ScaffoldReport.mk = w.foretellAll order g o s ∨
      ∃ e, r = .error e ∧ WriteFailed (w.written order o) s' e := by
  have hlaid : w.LaidOut order o.scope o.output s := laidOut hv hl
  have hwhole : plan o.scope [] order = [] ++ plan o.scope [] order ++ [] := (List.append_nil _).symm
  obtain hr | ⟨e, rfl, hfailed⟩ := mapM_foretold (hlaid.midway hwhole) hd
    (fun p hp => hc p (List.mem_append_right _ hp)) hmap
  · exact .inl (foretellAll_of_starts hstart hr.symm).symm
  · exact .inr ⟨e, rfl, hfailed.mono (List.subset_append_right _ _)⟩

theorem scaffold_foretold {r : Except Error ScaffoldReport} (hv : w.validate = .ok order)
    (hd : o.mode.dryRun = false) (hl : s.NoLinksBelow o.output)
    (hc : ∀ p ∈ w.written order o, ¬s.Obscured o.output p) (h : w.scaffold order g o s = (r, s')) :
    r = w.foretellAll order g o s ∨ ∃ e, r = .error e ∧ WriteFailed (w.written order o) s' e := by
  cases scaffold_eq_iff.1 h with
  | refused hcheck => exact .inl (foretellAll_of_refused hcheck).symm
  | headless hcheck hheader => exact .inl (foretellAll_of_headless hcheck hheader).symm
  | failed hstart hmap =>
    obtain hr | ⟨e, he, hfailed⟩ := starts_foretold hv hd hl hc hstart hmap
    · exact .inl hr
    · obtain rfl := Except.error.inj he
      exact .inr ⟨_, rfl, hfailed⟩
  | emitted hstart hmap _ =>
    exact .inl ((starts_foretold hv hd hl hc hstart hmap).resolve_right fun ⟨_, he, _⟩ => nomatch he)
  | recorded hstart hmap _ _ =>
    exact .inl ((starts_foretold hv hd hl hc hstart hmap).resolve_right fun ⟨_, he, _⟩ => nomatch he)
  | unrecorded hstart hmap hapi hrec =>
    rw [hd, Bool.not_false, Bool.and_true] at hapi
    have hpath : ProjectFile.path o.output ∈ w.written order o := by simp [written, hapi]
    -- The metadata is found as it was when the run started, so that it is not refused now.
    obtain ⟨existing, hload⟩ := (checkDestinations_eq_ok_iff.1 hstart.checked).1 hapi
    have hentry := entry?_of_emitted hv hd hl (List.append_nil _).symm hmap _ List.mem_cons_self (hc _ hpath)
    rw [← ProjectFile.loadSupported_congr hentry] at hload
    obtain ⟨_, he⟩ | ⟨e, he, hfailed⟩ := recordResources_of_supported hload hrec
    · cases he
    · obtain rfl := Except.error.inj he
      exact .inr ⟨_, rfl, _, hpath, _, _, rfl, hfailed⟩

/-- A dry run changes no file, and foretells the run: it ends with the same report, or with the same
error, unless the run fails to write. -/
theorem dry_run_foretells (w : Workload) (order : List Resource) (g : Template.Registry)
    (o : ScaffoldOptions) (s : Workspace) :
    ∃ foretold notices, w.scaffold order g (o.withDryRun true) s = (foretold, { s with notices }) ∧
      (w.validate = .ok order → s.NoLinksBelow o.output →
        (∀ p ∈ w.written order o, ¬s.Obscured o.output p) →
        ∀ r s', w.scaffold order g (o.withDryRun false) s = (r, s') →
          r = foretold ∨ ∃ e, r = .error e ∧ WriteFailed (w.written order o) s' e) := by
  obtain ⟨notices, hdry⟩ := scaffold_dry w g s order (show (o.withDryRun true).mode.dryRun = true from rfl)
  refine ⟨_, notices, hdry, fun hv hl hc r s' h => ?_⟩
  exact scaffold_foretold (o := o.withDryRun false) hv rfl hl hc h

end Workload

/-!
A queue by itself, with templates that are quick to render.
-/

namespace Queue

def resource : Resource :=
  ⟨"queue", .standalone, "apps", "v1", "Queue", "queues", true, [], [], [], none, false, "a.yaml"⟩

def workload : Workload := ⟨"w", "a.yaml", "r", ⟨"apps", "v1", none, true⟩, [resource], []⟩

theorem validate_workload : workload.validate = .ok [resource] :=
  Workload.validate_of_singleton rfl (by decide)

def registry : Template.Registry :=
  ⟨[("config/manifests", fun c => .ok c.resource.name), ("config/sample", fun _ => .ok "sample"),
    ("dependencies/check", fun _ => .ok "check"), ("controllers/reconciler", fun c => .ok c.resource.kind)]⟩

def options (scope : Scope) : ScaffoldOptions := ⟨⟨"out"⟩, ⟨false, false⟩, scope, none⟩

def configs : ScaffoldOptions := options ⟨false, true, true, false, false⟩

/-- A directory for the manifests, and a sample. -/
def sampled (sample : Entry) : Workspace :=
  ⟨⟨[(["out"], .directory), (["out", "config"], .directory), (["out", "config", "manifests"], .directory),
    (["out", "config", "samples"], .directory),
    (["out", "config", "samples", "apps_v1_queue.yaml"], sample)]⟩, [], []⟩

def mine : Entry := .file (.text "mine") 0o644

theorem dry_run_foretells_beside_a_kept_sample :
    workload.validate = .ok [resource] ∧ (sampled mine).NoLinksBelow configs.output ∧
      (∀ p ∈ workload.written [resource] configs, ¬(sampled mine).Obscured configs.output p) ∧
      ∃ report notices s',
        workload.scaffold [resource] registry (configs.withDryRun true) (sampled mine) =
          (.ok report, { sampled mine with notices }) ∧
        workload.scaffold [resource] registry (configs.withDryRun false) (sampled mine) = (.ok report, s') ∧
        report.records.map (·.outcome) = [.created, .skipped] := by
  have hrun : (match (workload.scaffold [resource] registry (configs.withDryRun false) (sampled mine)).1 with
      | .ok report => report.records.map (·.outcome)
      | .error _ => []) = [.created, .skipped] := by
    decide +kernel
  have hlinks : ∀ x ∈ (sampled mine).files.entries, ∀ target, x.2 ≠ .link target := by
    simp [sampled, mine]
  have hclear : ∀ p ∈ workload.written [resource] configs, ¬(sampled mine).Obscured configs.output p := by
    have hpaths : workload.written [resource] configs =
        [⟨"out/config/manifests/apps_v1_queue.yaml"⟩, ⟨"out/config/samples/apps_v1_queue.yaml"⟩] := by
      decide
    rw [hpaths]
    refine List.forall_mem_cons.2 ⟨?_, List.forall_mem_singleton.2 fun hc => hc.1 rfl⟩
    exact not_obscured_of_free (d := ["out", "config", "manifests"]) (n := "apps_v1_queue.yaml") hlinks
      rfl rfl (by decide)
  refine ⟨validate_workload, noLinksBelow_of_entries hlinks, hclear, ?_⟩
  cases h : workload.scaffold [resource] registry (configs.withDryRun false) (sampled mine) with
  | mk r s' =>
    rw [h] at hrun
    cases r with
    | error e => cases hrun
    | ok report =>
      obtain ⟨foretold, notices, hdry, hreal⟩ :=
        Workload.dry_run_foretells workload [resource] registry configs (sampled mine)
      obtain rfl | ⟨_, he, -⟩ := hreal validate_workload (noLinksBelow_of_entries hlinks) hclear _ _ h
      · exact ⟨report, notices, s', hdry, rfl, hrun⟩
      · cases he

/-- Where the sample is a link to the manifests, which are yet to be written, the dry run takes it to be
missing. -/
theorem dry_run_misses_a_link :
    ∃ foretold report, workload.validate = .ok [resource] ∧
      (workload.scaffold [resource] registry (configs.withDryRun true)
        (sampled (.link ⟨"../manifests/apps_v1_queue.yaml"⟩))).1 = .ok foretold ∧
      (workload.scaffold [resource] registry (configs.withDryRun false)
        (sampled (.link ⟨"../manifests/apps_v1_queue.yaml"⟩))).1 = .ok report ∧
      foretold.records.map (·.outcome) = [.created, .created] ∧
      report.records.map (·.outcome) = [.created, .skipped] := by
  have hrun (dryRun : Bool) : (match (workload.scaffold [resource] registry (configs.withDryRun dryRun)
        (sampled (.link ⟨"../manifests/apps_v1_queue.yaml"⟩))).1 with
      | .ok report => report.records.map (·.outcome)
      | .error _ => []) = [.created, if dryRun then .created else .skipped] := by
    revert dryRun
    decide +kernel
  have hdry := hrun true
  have hreal := hrun false
  split at hdry
  next foretold h =>
    split at hreal
    next report h' => exact ⟨foretold, report, validate_workload, h, h', hdry, hreal⟩
    next => cases hreal
  next => cases hdry

end Queue

end OperatorScaffold

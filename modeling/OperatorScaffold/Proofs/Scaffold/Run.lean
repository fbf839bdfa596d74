import OperatorScaffold.Proofs.Project.Reload
import OperatorScaffold.Proofs.Scaffold.Emission
/-!
A run as a whole: each file comes out as its artifact alone would leave it, and all others stay.
-/

namespace OperatorScaffold

open ArtifactKind Workspace

namespace Workload

variable {w : Workload} {g : Template.Registry} {o : ScaffoldOptions} {header : String}
  {s₀ s s' : Workspace} {order : List Resource}

theorem recordResources_spec {root : Path} {controllers : Bool} {r : Except ScaffoldError WriteOutcome}
    (h : recordResources root w order controllers s = (r, s')) : ∃ mid,
      Makes (ProjectFile.path root).OnWay s mid ∧ (s' = mid ∨ (∃ outcome, r = .ok outcome) ∧
        ∃ d n text m, mid.Opens (ProjectFile.path root) d n ∧
          s' = mid.put (d ++ [n]) (.file (.text text) m)) := by
  cases ProjectFile.recordResources_eq_iff.1 h with
  | refused => exact ⟨s, .still, .inl rfl⟩
  | same => exact ⟨s, .still, .inl rfl⟩
  | failed _ _ hwrite =>
    obtain ⟨mid, hm, ⟨_, -, rfl⟩ | ⟨he, -⟩⟩ := writeText_spec hwrite
    · exact ⟨_, hm, .inl rfl⟩
    · cases he
  | written _ _ hwrite =>
    obtain ⟨mid, hm, ⟨_, he, -⟩ | ⟨-, d, n, ho, rfl⟩⟩ := writeText_spec hwrite
    · cases he
    · exact ⟨mid, hm, .inr ⟨⟨_, rfl⟩, d, n, _, _, ho, rfl⟩⟩

theorem record_between {root : Path} {controllers : Bool} {r : Except ScaffoldError WriteOutcome}
    {dests done : List Path} (hb : Between s₀ s dests done) (hl : s₀.NoLinksBelow root)
    (h : recordResources root w order controllers s = (r, s')) :
    Touches s₀ s s' [ProjectFile.path root] ∧ (s₀.KeepsBut s' done ∨
      (∃ outcome, r = .ok outcome) ∧ s₀.KeepsBut s' (ProjectFile.path root :: done)) := by
  obtain ⟨mid, hm, hend⟩ := recordResources_spec h
  have hm' : Makes (ProjectFile.path root).OnWay { s with notices := s.notices } mid := hm
  have hmid := (hb.widen (List.subset_cons_self (ProjectFile.path root) dests)).makes List.mem_cons_self hm'
  obtain rfl | ⟨hr, d, n, text, m, ho, rfl⟩ := hend
  · exact ⟨hm.touches _, .inl hmid.files⟩
  · obtain ⟨r', hr', e⟩ := ho.join hl hmid.grows ends_project rfl
    obtain ⟨hput, -, ht⟩ := hmid.put (c := .text text) (m := m) (fun target => e ▸ hl r' hr' _ target) ho
    exact ⟨(hm.touches []).trans ht, .inr ⟨hr, hput.files⟩⟩

/-- Recording the project leaves the artifacts of a run as they came out. -/
theorem LaidOut.recorded {records : List ScaffoldRecord} {controllers : Bool} {r : Except ScaffoldError WriteOutcome}
    (h : w.LaidOut order o.scope o.output s₀) (hl : s₀.NoLinksBelow o.output)
    (hb : Between s₀ s (ProjectFile.path o.output :: w.destinations o.output (plan o.scope [] order))
      (w.destinations o.output (plan o.scope [] order)))
    (hall : (plan o.scope [] order).Forall₂ (w.Emission g o header s₀ s) records)
    (hrec : recordResources o.output w order controllers s = (r, s')) :
    s₀.Grows s' ∧ (plan o.scope [] order).Forall₂ (w.Emission g o header s₀ s') records ∧
      (s₀.KeepsBut s' (w.destinations o.output (plan o.scope [] order)) ∨ (∃ outcome, r = .ok outcome) ∧
        s₀.KeepsBut s' (ProjectFile.path o.output :: w.destinations o.output (plan o.scope [] order))) := by
  obtain ⟨ht, hkeeps⟩ := record_between hb hl hrec
  have hfree : ∀ p ∈ w.destinations o.output (plan o.scope [] order), ∀ p' ∈ [ProjectFile.path o.output],
      s₀.Apart p p' := fun p hp => List.forall_mem_singleton.2 (h.project p hp)
  exact ⟨hb.grows.trans ht.grows,
    emissions_keep hall h.separate (List.subset_cons_self _ _) hb.grows ht hfree, hkeeps⟩

theorem checkController_eq_ok {root : Path} {r : Resource} :
    checkController s w root r = .ok () ↔ ¬s.has (w.controllerOf root r).destination := by
  unfold checkController
  dsimp only
  split
  next h => exact ⟨nofun, fun hn => absurd h hn⟩
  next h => exact ⟨fun _ => h, fun _ => rfl⟩

theorem checkController_eq_error {root : Path} {r : Resource} {e : Error} (h : checkController s w root r = .error e) :
    s.has (w.controllerOf root r).destination ∧
      e = .scaffold r.gvk.text (.destinationExists (w.controllerOf root r).destination) := by
  unfold checkController at h
  dsimp only at h
  split at h
  next hhas => exact ⟨hhas, (Except.error.inj h).symm⟩
  next => cases h

/-- Before a run starts it fails by the metadata of the project, or by a controller that is there. -/
theorem checkDestinations_eq_error {e : Error} (h : checkDestinations s w order o = .error e) :
    (o.scope.api ∧ ∃ cause, ProjectFile.loadSupported s o.output = .error cause ∧ e = .scaffold "PROJECT" cause) ∨
      o.mode.force = false ∧ o.scope.controllers ∧ ∃ r ∈ order, s.has (w.controllerOf o.output r).destination ∧
        e = .scaffold r.gvk.text (.destinationExists (w.controllerOf o.output r).destination) := by
  unfold checkDestinations at h
  have hguard (h : (if (!o.mode.force && o.scope.controllers) = true then
      order.forM (checkController s w o.output) else pure ()) = .error e) :
      o.mode.force = false ∧ o.scope.controllers ∧ ∃ r ∈ order, s.has (w.controllerOf o.output r).destination ∧
        e = .scaffold r.gvk.text (.destinationExists (w.controllerOf o.output r).destination) := by
    split at h
    next hc =>
      simp only [Bool.and_eq_true, Bool.not_eq_true'] at hc
      obtain ⟨r, hr, h⟩ := Validation.forM_eq_error h
      exact ⟨hc.1, hc.2, r, hr, checkController_eq_error h⟩
    next => cases h
  by_cases hapi : o.scope.api
  · simp only [if_pos hapi] at h
    obtain h | ⟨_, -, h⟩ := bind_eq_error.1 h
    · obtain ⟨cause, hload, rfl⟩ := mapError_eq_error.1 (map_eq_error.1 h)
      exact .inl ⟨hapi, cause, hload, rfl⟩
    · exact .inr (hguard h)
  · simp only [if_neg hapi] at h
    exact .inr (hguard h)

/-- A run is let through where the metadata is supported and no controller would be overwritten. -/
theorem checkDestinations_eq_ok_iff : checkDestinations s w order o = .ok () ↔
    (o.scope.api → ∃ existing, ProjectFile.loadSupported s o.output = .ok existing) ∧
      (o.mode.force = false → o.scope.controllers →
        ∀ r ∈ order, ¬s.has (w.controllerOf o.output r).destination) := by
  constructor
  · intro h
    unfold checkDestinations at h
    have hguard (h : (if (!o.mode.force && o.scope.controllers) = true then
        order.forM (checkController s w o.output) else pure ()) = .ok ()) (hf : o.mode.force = false)
        (hc : o.scope.controllers) : ∀ r ∈ order, ¬s.has (w.controllerOf o.output r).destination := by
      rw [hf, hc] at h
      exact fun r hr => checkController_eq_ok.1 (Validation.forM_eq_ok h r hr)
    by_cases hapi : o.scope.api
    · simp only [if_pos hapi] at h
      obtain ⟨_, hload, h⟩ := bind_eq_ok.1 h
      obtain ⟨existing, hload⟩ := discard_eq_ok.1 hload
      exact ⟨fun _ => ⟨existing, mapError_eq_ok.1 hload⟩, hguard h⟩
    · simp only [if_neg hapi] at h
      exact ⟨fun h' => absurd h' hapi, hguard h⟩
  · rintro ⟨hload, hclear⟩
    cases hcheck : checkDestinations s w order o with
    | ok => rfl
    | error e =>
      obtain ⟨hapi, cause, hl, -⟩ | ⟨hf, hc, r, hr, hhas, -⟩ := checkDestinations_eq_error hcheck
      · obtain ⟨existing, he⟩ := hload hapi
        cases he.symm.trans hl
      · exact absurd hhas (hclear hf hc r hr)

/-- A run is refused before it emits anything. -/
def Refuses (w : Workload) (order : List Resource) (o : ScaffoldOptions) (s : Workspace) (e : Error) :
    Prop :=
  checkDestinations s w order o = .error e ∨
    ∃ cause, Boilerplate.resolve s o.output o.boilerplate w.repository = .error cause ∧
      e = .scaffold w.name cause

/-- What comes next fails: an artifact, or the metadata of the project where all are emitted. -/
def FailsNext (w : Workload) (order : List Resource) (g : Template.Registry) (o : ScaffoldOptions)
    (header : String) (mid : Workspace) (e : Error) (s' : Workspace) :
    List (Resource × ArtifactKind) → Prop
  | x :: _ => w.emit g o header x mid = (.error e, s')
  | [] => ∃ cause, recordResources o.output w order o.scope.controllers mid = (.error cause, s') ∧
      e = .scaffold "PROJECT" cause

/-- A run gets to its artifacts: it is not refused, and has a header for them. -/
structure Starts (w : Workload) (order : List Resource) (o : ScaffoldOptions) (s : Workspace) (header : String) :
    Prop where
  checked : checkDestinations s w order o = .ok ()
  boilerplate : Boilerplate.resolve s o.output o.boilerplate w.repository = .ok header

/-- How a run may end. The project is recorded when all artifacts were emitted, where it has an API. -/
inductive RunsTo (w : Workload) (order : List Resource) (g : Template.Registry) (o : ScaffoldOptions) (s : Workspace) :
    Except Error ScaffoldReport → Workspace → Prop
  | refused {e : Error} : checkDestinations s w order o = .error e → RunsTo w order g o s (.error e) s
  | headless {cause : ScaffoldError} : checkDestinations s w order o = .ok () →
      Boilerplate.resolve s o.output o.boilerplate w.repository = .error cause →
      RunsTo w order g o s (.error (.scaffold w.name cause)) s
  | failed {header : String} {e : Error} {s' : Workspace} : w.Starts order o s header →
      (plan o.scope [] order).mapM (w.emit g o header) s = (.error e, s') → RunsTo w order g o s (.error e) s'
  | emitted {header : String} {records : List ScaffoldRecord} {s' : Workspace} : w.Starts order o s header →
      (plan o.scope [] order).mapM (w.emit g o header) s = (.ok records, s') →
      (o.scope.api && !o.mode.dryRun) = false → RunsTo w order g o s (.ok ⟨records⟩) s'
  | recorded {header : String} {records : List ScaffoldRecord} {outcome : WriteOutcome} {mid s' : Workspace} :
      w.Starts order o s header →
      (plan o.scope [] order).mapM (w.emit g o header) s = (.ok records, mid) → (o.scope.api && !o.mode.dryRun) →
      recordResources o.output w order o.scope.controllers mid = (.ok outcome, s') →
      RunsTo w order g o s (.ok ⟨records⟩) s'
  | unrecorded {header : String} {records : List ScaffoldRecord} {cause : ScaffoldError} {mid s' : Workspace} :
      w.Starts order o s header →
      (plan o.scope [] order).mapM (w.emit g o header) s = (.ok records, mid) → (o.scope.api && !o.mode.dryRun) →
      recordResources o.output w order o.scope.controllers mid = (.error cause, s') →
      RunsTo w order g o s (.error (.scaffold "PROJECT" cause)) s'

theorem scaffold_of_starts (h : w.Starts order o s header) : w.scaffold order g o s = (do
    let records ← (plan o.scope [] order).mapM (w.emit g o header)
    if o.scope.api && !o.mode.dryRun then
      discard <| (recordResources o.output w order o.scope.controllers).relabel (.scaffold "PROJECT")
    return ⟨records⟩ : Action Error ScaffoldReport) s := by
  unfold scaffold
  rw [Action.bind_apply_ok Action.get_apply, Action.liftExcept_bind_ok h.checked,
    Action.liftExcept_bind_ok (mapError_eq_ok.2 h.boilerplate), scaffoldResources_eq]

theorem RunsTo.scaffold_eq {r : Except Error ScaffoldReport} (h : w.RunsTo order g o s r s') :
    w.scaffold order g o s = (r, s') := by
  cases h with
  | refused hcheck =>
    unfold scaffold
    rw [Action.bind_apply_ok Action.get_apply, hcheck]
    rfl
  | headless hcheck hheader =>
    unfold scaffold
    rw [Action.bind_apply_ok Action.get_apply, Action.liftExcept_bind_ok hcheck, hheader]
    rfl
  | failed hstart hmap => rw [scaffold_of_starts hstart, Action.bind_apply_error hmap]
  | emitted hstart hmap hapi =>
    rw [scaffold_of_starts hstart, Action.bind_apply_ok hmap, hapi]
    rfl
  | recorded hstart hmap hapi hrec =>
    rw [scaffold_of_starts hstart, Action.bind_apply_ok hmap, if_pos hapi,
      Action.bind_apply_ok (Action.discard_ok (Action.relabel_ok _ hrec))]
    rfl
  | unrecorded hstart hmap hapi hrec =>
    rw [scaffold_of_starts hstart, Action.bind_apply_ok hmap, if_pos hapi,
      Action.bind_apply_error (Action.discard_error (Action.relabel_error _ hrec))]

variable (w order g o s) in
theorem exists_runsTo : ∃ r s', w.RunsTo order g o s r s' := by
  cases hcheck : checkDestinations s w order o with
  | error e => exact ⟨_, _, .refused hcheck⟩
  | ok =>
  cases hheader : Boilerplate.resolve s o.output o.boilerplate w.repository with
  | error cause => exact ⟨_, _, .headless hcheck hheader⟩
  | ok header =>
  cases hmap : (plan o.scope [] order).mapM (w.emit g o header) s with
  | mk r mid =>
  cases r with
  | error e => exact ⟨_, _, .failed ⟨hcheck, hheader⟩ hmap⟩
  | ok records =>
  cases hapi : o.scope.api && !o.mode.dryRun with
  | false => exact ⟨_, _, .emitted ⟨hcheck, hheader⟩ hmap hapi⟩
  | true =>
  cases hrec : recordResources o.output w order o.scope.controllers mid with
  | mk r s' =>
  cases r with
  | error cause => exact ⟨_, _, .unrecorded ⟨hcheck, hheader⟩ hmap hapi hrec⟩
  | ok outcome => exact ⟨_, _, .recorded ⟨hcheck, hheader⟩ hmap hapi hrec⟩

theorem scaffold_eq_iff {r : Except Error ScaffoldReport} :
    w.scaffold order g o s = (r, s') ↔ w.RunsTo order g o s r s' := by
  refine ⟨fun h => ?_, RunsTo.scaffold_eq⟩
  obtain ⟨r', mid, hruns⟩ := exists_runsTo w g o s order
  obtain ⟨rfl, rfl⟩ := Prod.mk.inj (h.symm.trans hruns.scaffold_eq)
  exact hruns

/-- A run that succeeds emits all artifacts, and then records the project where it has an API. -/
theorem scaffold_eq_ok_iff {report : ScaffoldReport} :
    w.scaffold order g o s = (.ok report, s') ↔ checkDestinations s w order o = .ok () ∧
      ∃ header mid, Boilerplate.resolve s o.output o.boilerplate w.repository = .ok header ∧
        (plan o.scope [] order).mapM (w.emit g o header) s = (.ok report.records, mid) ∧
        if o.scope.api && !o.mode.dryRun then
          ∃ outcome, recordResources o.output w order o.scope.controllers mid = (.ok outcome, s')
        else s' = mid := by
  rw [scaffold_eq_iff]
  constructor
  · intro h
    cases h with
    | emitted hstart hmap hapi =>
      rw [hapi]
      exact ⟨hstart.checked, _, _, hstart.boilerplate, hmap, rfl⟩
    | recorded hstart hmap hapi hrec =>
      rw [hapi]
      exact ⟨hstart.checked, _, _, hstart.boilerplate, hmap, _, hrec⟩
  · rintro ⟨hcheck, header, mid, hheader, hmap, hrec⟩
    split at hrec
    next hapi =>
      obtain ⟨outcome, hrec⟩ := hrec
      exact .recorded ⟨hcheck, hheader⟩ hmap hapi hrec
    next hapi =>
      subst hrec
      exact .emitted ⟨hcheck, hheader⟩ hmap (Bool.eq_false_iff.2 hapi)

theorem map_records_of_scaffold {β : Type} {f : ScaffoldRecord → β} {k : Resource × ArtifactKind → β}
    (hf : ∀ x outcome, f ⟨x.1.name, x.2, (w.artifactOf o.output x).destination, outcome⟩ = k x)
    {report : ScaffoldReport} (h : w.scaffold order g o s = (.ok report, s')) :
    report.records.map f = (plan o.scope [] order).map k := by
  obtain ⟨-, header, mid, -, hmap, -⟩ := scaffold_eq_ok_iff.1 h
  have hall := Action.forall₂_of_mapM (P := fun x record => f record = k x)
    (fun x record _ _ hx => by obtain ⟨_, _, -, rfl, -⟩ := of_emit_ok hx; exact hf x _) hmap
  generalize plan o.scope [] order = xs, report.records = records at hall ⊢
  induction hall with
  | nil => rfl
  | cons hx _ ih => rw [List.map_cons, List.map_cons, hx, ih]

/-- A report tells of all artifacts that the run was to emit, in their order. -/
theorem records_of_scaffold {report : ScaffoldReport} (h : w.scaffold order g o s = (.ok report, s')) :
    report.records.map (fun r => (r.resource, r.kind)) =
      (plan o.scope [] order).map fun x => (x.1.name, x.2) :=
  map_records_of_scaffold (fun _ _ => rfl) h

theorem paths_of_scaffold {report : ScaffoldReport} (h : w.scaffold order g o s = (.ok report, s')) :
    report.records.map (·.path) = w.destinations o.output (plan o.scope [] order) :=
  map_records_of_scaffold (fun _ _ => rfl) h

/-- The report of a run of what is accepted. -/
def trial? (w : Workload) (g : Template.Registry) (o : ScaffoldOptions) (s : Workspace) : Option ScaffoldReport :=
  w.validate.toOption.bind fun order => (w.scaffold order g o s).1.toOption

theorem exists_of_trial? {P : ScaffoldReport → Bool} (h : (w.trial? g o s).any P) : ∃ order report s',
    w.validate = .ok order ∧ w.scaffold order g o s = (.ok report, s') ∧ P report := by
  obtain ⟨report, htrial, hP⟩ := (Option.any_eq_true _ _).1 h
  obtain ⟨order, hv, hreport⟩ := Option.bind_eq_some_iff.1 htrial
  refine ⟨order, report, (w.scaffold order g o s).2, ?_, Prod.ext ?_ rfl, hP⟩
  · exact toOption_eq_some.1 hv
  · exact toOption_eq_some.1 hreport

/-- Where a run stops, what it did not reach leads elsewhere than what it emitted. -/
theorem apart_rest {root : Path} {xs emitted rest : List (Resource × ArtifactKind)}
    (h : xs = emitted ++ rest) (hp : (w.destinations root xs).Pairwise s.Apart)
    (hproject : ∀ p ∈ w.destinations root xs, s.Apart p (ProjectFile.path root)) :
    ∀ p ∈ ProjectFile.path root :: w.destinations root rest,
      ∀ p' ∈ w.destinations root emitted, s.Apart p p' := by
  rw [h, destinations, List.map_append] at hp hproject
  obtain ⟨-, -, hcross⟩ := List.pairwise_append.1 hp
  refine List.forall_mem_cons.2 ⟨fun p' hp' => ?_, fun p hpr p' hp' => (hcross p' hp' p hpr).symm⟩
  exact (hproject p' (List.mem_append_left _ hp')).symm

/-- A run that comes out leaves each artifact as it was to be, and all other files as they were. -/
theorem emissions_of_scaffold {report : ScaffoldReport} (hv : w.validate = .ok order) (hd : o.mode.dryRun = false)
    (hl : s.NoLinksBelow o.output) (h : w.scaffold order g o s = (.ok report, s')) :
    s.Grows s' ∧ ∃ header, Boilerplate.resolve s o.output o.boilerplate w.repository = .ok header ∧
      (plan o.scope [] order).Forall₂ (w.Emission g o header s s') report.records ∧
      s.KeepsBut s' (ProjectFile.path o.output :: w.destinations o.output (plan o.scope [] order)) := by
  have hlaid : w.LaidOut order o.scope o.output s := laidOut hv hl
  cases scaffold_eq_iff.1 h with
  | @emitted header _ _ hstart hmap =>
    obtain ⟨hb, hall⟩ := hlaid.emits_all hd hmap
    exact ⟨hb.grows, header, hstart.boilerplate, hall, hb.files.mono (List.subset_cons_self _ _)⟩
  | @recorded header _ _ _ _ hstart hmap _ hrec =>
    obtain ⟨hb, hall⟩ := hlaid.emits_all hd hmap
    obtain ⟨hgrows, hall, hkeeps | ⟨-, hkeeps⟩⟩ := hlaid.recorded hl hb hall hrec
    · exact ⟨hgrows, header, hstart.boilerplate, hall, hkeeps.mono (List.subset_cons_self _ _)⟩
    · exact ⟨hgrows, header, hstart.boilerplate, hall, hkeeps⟩

/-- A run revises the tree file by file. What it reports has become of each file, by what was there
before; no other file changes. Where it fails, this holds of what was emitted until then. -/
theorem scaffold_revises_each_file {r : Except Error ScaffoldReport} (hv : w.validate = .ok order)
    (hd : o.mode.dryRun = false) (hl : s.NoLinksBelow o.output)
    (h : w.scaffold order g o s = (r, s')) :
    (∀ report, r = .ok report → ∃ header,
      Boilerplate.resolve s o.output o.boilerplate w.repository = .ok header ∧
      (plan o.scope [] order).Forall₂ (w.Emission g o header s s') report.records ∧
      s.KeepsBut s' (ProjectFile.path o.output :: w.destinations o.output (plan o.scope [] order))) ∧
    (∀ e, r = .error e → w.Refuses order o s e ∧ s' = s ∨
      ∃ header emitted rest records mid,
        Boilerplate.resolve s o.output o.boilerplate w.repository = .ok header ∧
        plan o.scope [] order = emitted ++ rest ∧
        emitted.mapM (w.emit g o header) s = (.ok records, mid) ∧
        w.FailsNext order g o header mid e s' rest ∧
        emitted.Forall₂ (w.Emission g o header s s') records ∧
        s.KeepsBut s' (w.destinations o.output emitted) ∧
        ∀ p ∈ ProjectFile.path o.output :: w.destinations o.output rest,
          ∀ q, s.LeadsTo p q → s.Keeps s' q) := by
  constructor
  · rintro report rfl
    exact (emissions_of_scaffold hv hd hl h).2
  · rintro e rfl
    have hlaid : w.LaidOut order o.scope o.output s := laidOut hv hl
    have hplan : plan o.scope [] order = plan o.scope [] order ++ [] := (List.append_nil _).symm
    cases scaffold_eq_iff.1 h with
    | refused hcheck => exact .inl ⟨.inl hcheck, rfl⟩
    | headless _ hheader => exact .inl ⟨.inr ⟨_, hheader, rfl⟩, rfl⟩
    | @failed header _ _ hstart hmap =>
      have hwhole : plan o.scope [] order = [] ++ plan o.scope [] order ++ [] := hplan
      obtain ⟨-, emitted, rest, records, mid, hparts, hmid, hall, hb, hend⟩ := (hlaid.midway hwhole).run hd hmap
      rw [List.append_nil] at hb
      obtain ⟨-, he, -⟩ | ⟨x, xs, e', rfl, he, hx⟩ := hend
      · cases he
      · obtain rfl := Except.error.inj he
        exact .inr ⟨header, emitted, x :: xs, records, mid, hstart.boilerplate, hparts, hmid, hx, hall, hb.files,
          hb.files.keeps (apart_rest hparts hlaid.apart hlaid.project)⟩
    | @unrecorded header records cause mid _ hstart hmap _ hrec =>
      obtain ⟨hb, hall⟩ := hlaid.emits_all hd hmap
      obtain ⟨-, hall, hkeeps⟩ := hlaid.recorded hl hb hall hrec
      have hkeeps := hkeeps.resolve_right (by rintro ⟨⟨_, h⟩, -⟩; cases h)
      exact .inr ⟨header, _, [], records, mid, hstart.boilerplate, hplan, hmap, ⟨cause, hrec, rfl⟩, hall, hkeeps,
        hkeeps.keeps (apart_rest hplan hlaid.apart hlaid.project)⟩

end Workload

open Workload in
theorem scaffold_revises_each_file_beside_a_kept_sample :
    let queue : Resource :=
      ⟨"queue", .standalone, "apps", "v1", "Queue", "queues", true, [], [], [], none, false, "a.yaml"⟩
    let w : Workload := ⟨"w", "a.yaml", "r", ⟨"apps", "v1", none, true⟩, [queue], []⟩
    let g : Template.Registry :=
      ⟨[("config/sample", fun _ => .ok "fresh"), ("config/manifests", fun c => .ok c.resource.name)]⟩
    let o : ScaffoldOptions := ⟨⟨"out"⟩, ⟨false, false⟩, ⟨false, true, true, false, false⟩, none⟩
    let s : Workspace := ⟨⟨[(["out"], .directory), (["out", "config"], .directory),
      (["out", "config", "samples"], .directory),
      (["out", "config", "samples", "apps_v1_queue.yaml"], .file (.text "mine") 0o644)]⟩, [], []⟩
    ∃ order report s' header, w.validate = .ok order ∧ s.NoLinksBelow o.output ∧
      w.scaffold order g o s = (.ok report, s') ∧
      report.records.map (·.outcome) = [.created, .skipped] ∧
      (plan o.scope [] order).Forall₂ (w.Emission g o header s s') report.records ∧
      s.KeepsBut s' (ProjectFile.path o.output :: w.destinations o.output (plan o.scope [] order)) := by
  intro queue w g o s
  have hrun : (match w.validate with
      | .ok order => match (w.scaffold order g o s).1 with
        | .ok report => report.records.map (·.outcome)
        | .error _ => []
      | .error _ => []) = [.created, .skipped] := by
    decide +kernel
  have hlinks : s.NoLinksBelow o.output := noLinksBelow_of_entries (by simp [s])
  cases hv : w.validate with
  | error e => simp [hv] at hrun
  | ok order =>
    simp only [hv] at hrun
    cases h : w.scaffold order g o s with
    | mk r s' =>
      cases r with
      | error e => simp [h] at hrun
      | ok report =>
        obtain ⟨header, -, hall, hkeeps⟩ := (scaffold_revises_each_file hv rfl hlinks h).1 report rfl
        exact ⟨order, report, s', header, rfl, hlinks, h, by simpa [h] using hrun, hall, hkeeps⟩

-- The way to an obscured sample is made only when it is written, and the sample is lost.
example :
    let queue : Resource :=
      ⟨"queue", .standalone, "apps", "v1", "Queue", "queues", true, [], [], [], none, false, "a.yaml"⟩
    let w : Workload := ⟨"w", "a.yaml", "r", ⟨"apps", "v1", none, true⟩, [queue], []⟩
    let g : Template.Registry := ⟨[("config/sample", fun _ => .ok "fresh")]⟩
    let o : ScaffoldOptions :=
      ⟨⟨"new/../out"⟩, ⟨false, false⟩, ⟨false, false, true, false, false⟩, none⟩
    let s : Workspace := ⟨⟨[(["out"], .directory), (["out", "config"], .directory),
      (["out", "config", "samples"], .directory),
      (["out", "config", "samples", "apps_v1_queue.yaml"], .file (.text "mine") 0o644)]⟩, [], []⟩
    (w.scaffold [queue] g o s).2.readText ⟨"out/config/samples/apps_v1_queue.yaml"⟩ = .ok "fresh\n" := by
  decide +kernel

end OperatorScaffold

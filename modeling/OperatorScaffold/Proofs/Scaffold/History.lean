import OperatorScaffold.Proofs.Scaffold.Again
/-!
Runs one after the other into a root that was empty, and what the metadata of the project says of them.
-/

namespace OperatorScaffold

open ArtifactKind FileTree ProjectFile Workspace

/-- Where a root leads, nothing stands but the directory itself. -/
def Workspace.Vacant (s : Workspace) (root : Path) : Prop :=
  ∀ r, s.LeadsTo (inside root) r → ∀ below e, s.files.at? (r ++ below) = some e → below = [] ∧ e = .directory

/-- What the metadata of a project holds. Nothing is held where no file stands at its place, whether or
not the way there has been made yet. -/
def ProjectFile.Holds (s : Workspace) (root : Path) : Option ProjectFile → Prop
  | none => ∀ q, s.LeadsTo (path root) q → ∀ c m, s.files.at? q ≠ some (.file c m)
  | some p => load s root = .ok (some p)

variable {s₀ s s' mid : Workspace} {root : Path} {x existing : Option ProjectFile} {p : ProjectFile}
  {w : Workload} {g : Template.Registry} {o : ScaffoldOptions} {order : List Resource} {key : GVK}

theorem Workspace.Vacant.noLinksBelow (h : s.Vacant root) : s.NoLinksBelow root :=
  fun r hr below _ hat => nomatch (h r hr below _ hat).2

namespace ProjectFile

theorem holds_none_of_vacant (h : s.Vacant root) : Holds s root none := by
  intro q hq c m hat
  obtain ⟨r, hr, rfl⟩ := hq.join h.noLinksBelow ends_project rfl
  exact nomatch (h r hr _ _ hat).2

theorem Holds.eq_of_load (h : Holds s root x) (hl : s₀.NoLinksBelow root) (hg : s₀.Grows s)
    (hload : load s root = .ok existing) : existing = x := by
  cases x with
  | some p => exact Except.ok.inj (hload.symm.trans h)
  | none =>
    cases existing with
    | none => rfl
    | some p =>
      obtain ⟨text, ht, -⟩ := load_eq_some_iff.1 hload
      obtain ⟨q, m, hq⟩ := Workspace.readText_eq_ok ht
      obtain ⟨-, -, -, hat⟩ := locate_join hl hg ends_project rfl hq
      exact absurd hat (h q (leadsTo_of_locate hq) _ _)

/-- Emitting artifacts leaves the metadata as it is. -/
theorem Holds.emitted {xs : List (Resource × ArtifactKind)} (h : Holds s root x)
    (hs : Separate s root (path root :: w.destinations root xs))
    (hapart : ∀ p ∈ w.destinations root xs, s.Apart p (path root))
    (hb : Between s mid (path root :: w.destinations root xs) (w.destinations root xs)) :
    Holds mid root x := by
  cases x with
  | none =>
    intro q hq c m hat
    have hq := hq.of_grows hb.grows
    exact h q hq c m ((hb.files q (fun p hp hp' => hapart p hp q hp' hq) c m).1 hat)
  | some p =>
    obtain ⟨text, ht, hp⟩ := load_eq_some_iff.1 h
    obtain ⟨q, m, hq⟩ := Workspace.readText_eq_ok ht
    have hq := hb.locate hs List.mem_cons_self (fun p hp => (hapart p hp).symm) hq
    refine load_eq_some_iff.2 ⟨text, ?_, hp⟩
    rw [readText, hq]

/-- Recording a workload leaves its resources in the metadata, next to those that were there. -/
theorem Holds.recorded {controllers : Bool} {outcome : WriteOutcome} (h : Holds s root x)
    (hl : s₀.NoLinksBelow root) (hg : s₀.Grows s)
    (hread : ∀ p, written? s root w order controllers = some p →
      (read p.render).any (·.resources = p.resources))
    (hrec : recordResources root w order controllers s = (.ok outcome, s')) :
    s.Grows s' ∧ ∃ p configPath, Holds s' root (some p) ∧
      p.resources = ((x.getD .blank).record w order controllers configPath).resources := by
  cases recordResources_eq_iff.1 hrec with
  | same hload hsame =>
    obtain rfl := h.eq_of_load hl hg (loadSupported_eq_ok_iff.1 hload).1
    obtain ⟨-, -, -, -, -, hresources, -⟩ := same_iff.1 hsame
    exact ⟨.refl s, _, _, h, hresources⟩
  | written hload hwritten hwrite =>
    obtain rfl := h.eq_of_load hl hg (loadSupported_eq_ok_iff.1 hload).1
    obtain ⟨hgrows, ht⟩ := writeText_readText hl hg ends_project rfl hwrite
    obtain ⟨q, hq, hresources⟩ := (Option.any_eq_true _ _).1 (hread _ hwritten)
    obtain rfl := eq_record_of_written? hload hwritten
    exact ⟨hgrows, q, _, load_eq_some_iff.2 ⟨_, ht, hq⟩, of_decide_eq_true hresources⟩

end ProjectFile

/-- A run that wrote what it made of an accepted workload. -/
structure Run where
  workload : Workload
  order : List Resource
  registry : Template.Registry
  options : ScaffoldOptions
  before : Workspace
  report : ScaffoldReport
  after : Workspace
  accepted : workload.validate = .ok order
  writes : options.mode.dryRun = false
  succeeds : workload.scaffold order registry options before = (.ok report, after)

namespace Run

variable {run : Run}

def written? (run : Run) : Option ProjectFile :=
  run.workload.written? run.order run.registry run.options run.before

/-- The run tells of a controller for the resource with this key. -/
def Stubs (run : Run) (key : GVK) : Prop :=
  ∃ record ∈ run.report.records, record.kind = .controller ∧
    ∃ r ∈ run.workload.resources, r.name = record.resource ∧ r.gvk = key

/-- The run has an API, and the resource with this key is one of those it records. -/
def Records (run : Run) (key : GVK) : Prop := run.options.scope.api ∧ key ∈ run.order.map (·.gvk)

theorem stubs_iff : run.Stubs key ↔ run.options.scope.controllers ∧ key ∈ run.order.map (·.gvk) := by
  have hrecords := Workload.records_of_scaffold run.succeeds
  have hperm := Workload.perm_of_validate run.accepted
  constructor
  · rintro ⟨record, hrecord, hk, r, hr, hname, rfl⟩
    have hmem : (record.resource, record.kind) ∈ run.report.records.map fun r => (r.resource, r.kind) :=
      List.mem_map_of_mem hrecord
    rw [hrecords] at hmem
    obtain ⟨⟨r', k⟩, hplan, e⟩ := List.mem_map.1 hmem
    obtain ⟨hname', rfl⟩ : r'.name = record.resource ∧ k = record.kind := Prod.mk.inj e
    have hr' := (Workload.mem_plan hplan).1
    have hnames := ((decides_validate run.workload).ok _ run.accepted .names).1
    obtain rfl := List.inj_on_of_nodup_map hnames hr (hperm.mem_iff.1 hr') (hname.trans hname'.symm)
    have hincludes := Workload.includes_of_mem_plan hplan
    rw [hk] at hincludes
    exact ⟨hincludes, List.mem_map_of_mem hr'⟩
  · rintro ⟨hc, hkey⟩
    obtain ⟨r, hr, rfl⟩ := List.mem_map.1 hkey
    have hmem : (r.name, ArtifactKind.controller) ∈
        (Workload.plan run.options.scope [] run.order).map fun x => (x.1.name, x.2) :=
      List.mem_map.2 ⟨_, Workload.mem_plan_of_includes (k := .controller) (by decide) hc hr, rfl⟩
    rw [← hrecords] at hmem
    obtain ⟨record, hrecord, e⟩ := List.mem_map.1 hmem
    obtain ⟨hname, hk⟩ := Prod.mk.inj e
    exact ⟨record, hrecord, hk, r, hperm.mem_iff.1 hr, hname.symm, rfl⟩

/-- What a run makes of the metadata. -/
inductive Notes (run : Run) (x : Option ProjectFile) : Option ProjectFile → Prop
  | kept : ¬run.options.scope.api → run.Notes x x
  | recorded {p : ProjectFile} {configPath : String} : run.options.scope.api →
      p.resources = ((x.getD .blank).record run.workload run.order run.options.scope.controllers
        configPath).resources → run.Notes x (some p)

/-- A run leaves the metadata alone until its artifacts are all emitted. -/
theorem emits (hl : s₀.NoLinksBelow run.options.output) (hg : s₀.Grows run.before)
    (hx : Holds run.before run.options.output x) : ∃ header mid,
      Boilerplate.resolve run.before run.options.output run.options.boilerplate run.workload.repository =
        .ok header ∧
      (Workload.plan run.options.scope [] run.order).mapM
        (run.workload.emit run.registry run.options header) run.before = (.ok run.report.records, mid) ∧
      s₀.Grows mid ∧ Holds mid run.options.output x ∧
      if run.options.scope.api then
        ∃ outcome, recordResources run.options.output run.workload run.order run.options.scope.controllers
          mid = (.ok outcome, run.after)
      else run.after = mid := by
  have hlaid : run.workload.LaidOut run.order run.options.scope run.options.output run.before :=
    Workload.laidOut run.accepted (hl.of_grows hg)
  obtain ⟨-, header, mid, hheader, hmap, hrec⟩ := Workload.scaffold_eq_ok_iff.1 run.succeeds
  obtain ⟨hb, -⟩ := hlaid.emits_all run.writes hmap
  refine ⟨header, mid, hheader, hmap, hg.trans hb.grows, hx.emitted hlaid.separate hlaid.project hb, ?_⟩
  simpa [run.writes] using hrec

theorem notes (hl : s₀.NoLinksBelow run.options.output) (hg : s₀.Grows run.before)
    (hx : Holds run.before run.options.output x)
    (hread : ∀ p, run.written? = some p → (ProjectFile.read p.render).any (·.resources = p.resources)) :
    s₀.Grows run.after ∧ ∃ x', Holds run.after run.options.output x' ∧ run.Notes x x' := by
  obtain ⟨header, mid, hheader, hmap, hmid, hx, hrec⟩ := run.emits hl hg hx
  split at hrec
  next hapi =>
    obtain ⟨outcome, hrec⟩ := hrec
    rw [written?, Workload.written?_of_mapM hheader hmap hapi run.writes] at hread
    obtain ⟨hgrows, p, configPath, hp, hresources⟩ := hx.recorded hl hmid hread hrec
    exact ⟨hmid.trans hgrows, some p, hp, .recorded hapi hresources⟩
  next hapi =>
    rw [hrec]
    exact ⟨hmid, x, hx, .kept hapi⟩

theorem written?_eq_none (h : ¬run.options.scope.api) : run.written? = none := by
  unfold written? Workload.written?
  split
  next => rfl
  next =>
    split
    next => rfl
    next => rw [if_neg (by simp [h])]

/-- The first run with an API starts the metadata. -/
theorem written?_of_holds_none {header : String} (hl : s₀.NoLinksBelow run.options.output)
    (hg : s₀.Grows run.before) (hx : Holds run.before run.options.output none)
    (hapi : run.options.scope.api)
    (hheader : Boilerplate.resolve run.before run.options.output run.options.boilerplate
      run.workload.repository = .ok header) :
    run.written? = some (.record .blank run.workload run.order run.options.scope.controllers
      (configPath ((Workload.plan run.options.scope [] run.order).mapM
        (run.workload.emit run.registry run.options header) run.before).2 run.options.output
        run.workload.source)) := by
  obtain ⟨header', mid, hheader', hmap, hmid, hx, hrec⟩ := run.emits hl hg hx
  obtain rfl := Except.ok.inj (hheader.symm.trans hheader')
  rw [if_pos hapi] at hrec
  obtain ⟨outcome, hrec⟩ := hrec
  obtain ⟨existing, hload⟩ : ∃ existing, loadSupported mid run.options.output = .ok existing := by
    cases recordResources_eq_iff.1 hrec with
    | same hload => exact ⟨_, hload⟩
    | written hload => exact ⟨_, hload⟩
  obtain rfl := hx.eq_of_load hl hmid (loadSupported_eq_ok_iff.1 hload).1
  rw [written?, Workload.written?_of_mapM hheader hmap hapi run.writes, written?_of_none hload, hmap]

theorem exists_of_toBool (hv : w.validate = .ok order) (hd : o.mode.dryRun = false)
    (h : (w.scaffold order g o s).1.toBool) : ∃ run : Run, run.workload = w ∧ run.order = order ∧
      run.registry = g ∧ run.options = o ∧ run.before = s ∧ run.after = (w.scaffold order g o s).2 := by
  cases hrun : w.scaffold order g o s with
  | mk r after =>
    rw [hrun] at h
    cases r with
    | error e => cases h
    | ok report => exact ⟨⟨w, order, g, o, s, report, after, hv, hd, hrun⟩, rfl, rfl, rfl, rfl, rfl, rfl⟩

end Run

/-- Runs one after the other into one root, each in the workspace that the one before it left. -/
inductive History (root : Path) (s : Workspace) : List Run → Workspace → Prop
  | start : History root s [] s
  | run {runs : List Run} {run : Run} : History root s runs run.before → run.options.output = root →
      History root s (runs ++ [run]) run.after

/-- The metadata holds what the runs with an API recorded, and nothing of the other runs. -/
structure Tallies (runs : List Run) (x : Option ProjectFile) : Prop where
  held : x.isSome ↔ ∃ run ∈ runs, run.options.scope.api
  nodup : (keys (x.getD .blank).resources).Nodup
  listed : ∀ key, key ∈ keys (x.getD .blank).resources ↔ ∃ run ∈ runs, run.Records key
  controls : ∀ key, controls (x.getD .blank).resources key ↔
    ∃ run ∈ runs, run.options.scope.controllers ∧ run.Records key

theorem Tallies.nil : Tallies [] none := by
  constructor <;> simp [keys, ProjectFile.controls, lookup?, ProjectFile.blank]

theorem Tallies.notes {runs : List Run} {run : Run} {x x' : Option ProjectFile} (h : Tallies runs x)
    (hx : run.Notes x x') : Tallies (runs ++ [run]) x' := by
  have hlast {P : Run → Prop} : (∃ r ∈ runs ++ [run], P r) ↔ (∃ r ∈ runs, P r) ∨ P run := by
    simp only [List.mem_append, List.mem_singleton, or_and_right, exists_or, exists_eq_left]
  cases hx with
  | kept hapi =>
    have hnone (key : GVK) : ¬run.Records key := fun hr => hapi hr.1
    refine ⟨?_, h.nodup, fun key => ?_, fun key => ?_⟩
    · rw [h.held, hlast, or_iff_left hapi]
    · rw [h.listed, hlast, or_iff_left (hnone key)]
    · rw [h.controls, hlast, or_iff_left fun hc => hnone key hc.2]
  | recorded hapi hresources =>
    have hrecords (key : GVK) : run.Records key ↔ key ∈ run.order.map (·.gvk) := and_iff_right hapi
    refine ⟨?_, ?_, fun key => ?_, fun key => ?_⟩
    · rw [hlast]
      exact iff_of_true rfl (.inr hapi)
    · rw [Option.getD_some, hresources]
      exact nodup_keys_record h.nodup
    · rw [Option.getD_some, hresources, mem_keys_record, h.listed, hlast, hrecords]
    · rw [Option.getD_some, hresources, controls_record, h.controls, hlast, hrecords]

theorem History.tallies {runs : List Run} (hs : s₀.Vacant root) (h : History root s₀ runs s)
    (hread : ∀ run ∈ runs, ∀ p, run.written? = some p →
      (ProjectFile.read p.render).any (·.resources = p.resources)) :
    s₀.Grows s ∧ ∃ x, Holds s root x ∧ Tallies runs x := by
  induction h with
  | start => exact ⟨.refl s₀, none, holds_none_of_vacant hs, .nil⟩
  | @run runs run h ho ih =>
    obtain ⟨hread, hlast⟩ := List.forall_mem_append.1 hread
    obtain ⟨hg, x, hx, htallies⟩ := ih hread
    subst ho
    obtain ⟨hg, x', hx', hnotes⟩ := run.notes hs.noLinksBelow hg hx (List.forall_mem_singleton.1 hlast)
    exact ⟨hg, x', hx', htallies.notes hnotes⟩

/-- In the metadata that a history leaves, a controller is recorded for a resource if and only if a run
with an API scaffolded one. What runs without an API scaffold is not recorded, before or after. -/
theorem History.controllers_recorded {runs : List Run} (hs : s₀.Vacant root) (h : History root s₀ runs s)
    (hread : ∀ run ∈ runs, ∀ p, run.written? = some p →
      (ProjectFile.read p.render).any (·.resources = p.resources)) :
    ((∃ p, load s root = .ok (some p)) ↔ ∃ run ∈ runs, run.options.scope.api) ∧
      ∀ p, load s root = .ok (some p) → ∀ e ∈ p.resources,
        (e.controller ↔ ∃ run ∈ runs, run.options.scope.api ∧ run.Stubs e.gvk) := by
  obtain ⟨hg, x, hx, htallies⟩ := h.tallies hs hread
  refine ⟨?_, fun p hload e he => ?_⟩
  · rw [← htallies.held, Option.isSome_iff_exists]
    refine exists_congr fun p => ⟨fun hload => (hx.eq_of_load hs.noLinksBelow hg hload).symm, ?_⟩
    rintro rfl
    exact hx
  · obtain rfl := hx.eq_of_load hs.noLinksBelow hg hload
    have hrun (run : Run) : run.options.scope.controllers ∧ run.Records e.gvk ↔
        run.options.scope.api ∧ run.Stubs e.gvk := by
      rw [Run.stubs_iff, Run.Records, and_left_comm]
    rw [← controls_of_mem htallies.nodup he, htallies.controls]
    simp only [hrun]

namespace Widget

/-- Templates with texts that are quick to read. -/
def stubs : Template.Registry :=
  ⟨[("api/groupversion", fun _ => .ok "package v1"), ("api/types", fun _ => .ok "package v1"),
    ("controllers/reconciler", fun _ => .ok "package apps")]⟩

def vacant : Workspace := ⟨⟨[]⟩, [], []⟩

/-- An API, controllers, or both. Both are forced, as the controllers may be there. -/
def within (api controllers : Bool) : ScaffoldOptions :=
  ⟨⟨"out"⟩, ⟨api && controllers, false⟩, ⟨api, false, false, false, controllers⟩, none⟩

/-- What is left when the controller was scaffolded alone. -/
def stubbed : Workspace := (workload.scaffold [resource] stubs (within false true) vacant).2

theorem vacant_vacant (root : Path) : vacant.Vacant root := by
  intro r _ below e hat
  unfold FileTree.at? at hat
  split at hat
  next h => exact ⟨(List.append_eq_nil_iff.1 h).2, (Option.some.inj hat).symm⟩
  next => cases hat

theorem resolve_stubbed (c : Bool) :
    Boilerplate.resolve stubbed (within true c).output (within true c).boilerplate workload.repository =
      .ok header := by
  have hown : stubbed.isFile (Path.join ⟨"out"⟩ Boilerplate.relativePath) = false := by decide +kernel
  unfold Boilerplate.resolve
  simp only [show (within true c).output = ⟨"out"⟩ from rfl, hown]
  rfl

theorem configPath_stubbed (c : Bool) :
    ProjectFile.configPath ((Workload.plan (within true c).scope [] [resource]).mapM
      (workload.emit stubs (within true c) header) stubbed).2 (within true c).output workload.source =
        "/w.json" := by
  cases c <;> decide +kernel

theorem read_record (c : Bool) :
    (ProjectFile.read (ProjectFile.record .blank workload [resource] c "/w.json").render).any
      (·.resources = (ProjectFile.record .blank workload [resource] c "/w.json").resources) := by
  cases c with
  | false =>
    obtain ⟨p, hp, hsame⟩ := (Option.any_eq_true _ _).1 read_project
    obtain ⟨-, -, -, -, -, hresources, -⟩ := same_iff.1 hsame
    exact (Option.any_eq_true _ _).2 ⟨p, hp, decide_eq_true hresources⟩
  | true =>
    unfold ProjectFile.read Yaml.readTree Yaml.TokenStream.ofText
    rw [ProjectFile.toList_render]
    decide +kernel

/-- The controller is scaffolded alone first, and then the API, with the controller or without. -/
theorem exists_history (c : Bool) : ∃ first second : Run,
    History ⟨"out"⟩ vacant [first, second] second.after ∧
    (first.order = [resource] ∧ first.options = within false true) ∧
    (second.order = [resource] ∧ second.options = within true c) ∧
    ∀ run ∈ [first, second], ∀ p, run.written? = some p →
      (ProjectFile.read p.render).any (·.resources = p.resources) := by
  have hsucceeds : (workload.scaffold [resource] stubs (within false true) vacant).1.toBool := by
    decide +kernel
  have hsucceeds' : (workload.scaffold [resource] stubs (within true c) stubbed).1.toBool := by
    cases c <;> decide +kernel
  obtain ⟨first, hw, ho, hg, hopts, hbefore, hafter⟩ := Run.exists_of_toBool validate_workload rfl hsucceeds
  obtain ⟨second, hw', ho', hg', hopts', hbefore', hafter'⟩ :=
    Run.exists_of_toBool validate_workload rfl hsucceeds'
  have hroot : first.options.output = ⟨"out"⟩ := by rw [hopts]; rfl
  have hroot' : second.options.output = ⟨"out"⟩ := by rw [hopts']; rfl
  have hmid : second.before = first.after := hbefore'.trans hafter.symm
  have hstart : History ⟨"out"⟩ vacant [] first.before := hbefore ▸ .start
  have hnext : History ⟨"out"⟩ vacant [first] second.before := hmid ▸ hstart.run hroot
  have hnone : first.written? = none := Run.written?_eq_none (by rw [hopts]; decide)
  have hread : ∀ run ∈ [first], ∀ p, run.written? = some p →
      (ProjectFile.read p.render).any (·.resources = p.resources) := by
    simp [hnone]
  refine ⟨first, second, hnext.run hroot', ⟨ho, hopts⟩, ⟨ho', hopts'⟩,
    List.forall_mem_append.2 ⟨hread, List.forall_mem_singleton.2 fun p hp => ?_⟩⟩
  -- Nothing was recorded before the API came.
  obtain ⟨hgrows, x, hx, htallies⟩ := hnext.tallies (vacant_vacant _) hread
  obtain rfl : x = none := by
    rw [← Option.not_isSome_iff_eq_none, htallies.held]
    simp [hopts, within]
  have hapi : second.options.scope.api := by rw [hopts']; rfl
  have hheader : Boilerplate.resolve second.before second.options.output second.options.boilerplate
      second.workload.repository = .ok header := by
    rw [hbefore', hopts', hw']
    exact resolve_stubbed c
  have hwritten := Run.written?_of_holds_none (vacant_vacant _).noLinksBelow hgrows (hroot' ▸ hx) hapi hheader
  simp only [hw', ho', hg', hopts', hbefore', configPath_stubbed] at hwritten
  obtain rfl := Option.some.inj (hwritten.symm.trans hp)
  exact read_record c

/-- Its resource is recorded, whether or not the controller comes with the API. -/
theorem exists_entry {first second : Run} {c : Bool}
    (h : History ⟨"out"⟩ vacant [first, second] second.after)
    (hsecond : second.order = [resource] ∧ second.options = within true c)
    (hread : ∀ run ∈ [first, second], ∀ p, run.written? = some p →
      (ProjectFile.read p.render).any (·.resources = p.resources)) :
    ∃ p e, load second.after ⟨"out"⟩ = .ok (some p) ∧ e ∈ p.resources ∧ e.gvk = resource.gvk := by
  obtain ⟨-, x, hx, htallies⟩ := h.tallies (vacant_vacant _) hread
  have hrecords : second.Records resource.gvk := ⟨by rw [hsecond.2]; rfl, by simp [hsecond.1]⟩
  have hheld : x.isSome := htallies.held.2 ⟨second, by simp, hrecords.1⟩
  have hlisted := (htallies.listed _).2 ⟨second, by simp, hrecords⟩
  obtain ⟨p, rfl⟩ := Option.isSome_iff_exists.1 hheld
  obtain ⟨e, he, hkey⟩ := List.mem_map.1 hlisted
  exact ⟨p, e, hx, he, hkey⟩

theorem controllers_recorded_with_the_api :
    ∃ (first second : Run) (p : ProjectFile) (e : ProjectResource), vacant.Vacant ⟨"out"⟩ ∧
      History ⟨"out"⟩ vacant [first, second] second.after ∧
      (∀ run ∈ [first, second], ∀ p, run.written? = some p →
        (ProjectFile.read p.render).any (·.resources = p.resources)) ∧
      load second.after ⟨"out"⟩ = .ok (some p) ∧ e ∈ p.resources ∧ e.controller := by
  obtain ⟨first, second, h, -, hsecond, hread⟩ := exists_history true
  obtain ⟨p, e, hload, he, hkey⟩ := exists_entry h hsecond hread
  have hstubs : second.Stubs e.gvk := Run.stubs_iff.2 ⟨by rw [hsecond.2]; rfl, by simp [hsecond.1, hkey]⟩
  have hrecorded := (h.controllers_recorded (vacant_vacant _) hread).2 p hload e he
  exact ⟨first, second, p, e, vacant_vacant _, h, hread, hload, he,
    hrecorded.2 ⟨second, by simp, by rw [hsecond.2]; rfl, hstubs⟩⟩

/-- A controller that is scaffolded alone is not recorded, not even when the API comes later. -/
theorem controller_alone_not_recorded :
    ∃ (first second : Run) (p : ProjectFile) (e : ProjectResource), vacant.Vacant ⟨"out"⟩ ∧
      History ⟨"out"⟩ vacant [first, second] second.after ∧
      load second.after ⟨"out"⟩ = .ok (some p) ∧ e ∈ p.resources ∧ first.Stubs e.gvk ∧
      e.controller = false := by
  obtain ⟨first, second, h, hfirst, hsecond, hread⟩ := exists_history false
  obtain ⟨p, e, hload, he, hkey⟩ := exists_entry h hsecond hread
  have hstubs : first.Stubs e.gvk := Run.stubs_iff.2 ⟨by rw [hfirst.2]; rfl, by simp [hfirst.1, hkey]⟩
  refine ⟨first, second, p, e, vacant_vacant _, h, hload, he, hstubs, ?_⟩
  -- The first run has no API, and the second one no controllers.
  obtain ⟨hgrows, x, hx, htallies⟩ := h.tallies (vacant_vacant _) hread
  obtain rfl := hx.eq_of_load (vacant_vacant _).noLinksBelow hgrows hload
  rw [← controls_of_mem htallies.nodup he, Bool.eq_false_iff]
  intro hc
  obtain ⟨run, hrun, hcontrollers, hrecords⟩ := (htallies.controls _).1 hc
  obtain rfl | rfl : run = first ∨ run = second := by simpa using hrun
  · rw [Run.Records, hfirst.2] at hrecords
    exact absurd hrecords.1 (by decide)
  · rw [hsecond.2] at hcontrollers
    exact absurd hcontrollers (by decide)

end Widget

end OperatorScaffold

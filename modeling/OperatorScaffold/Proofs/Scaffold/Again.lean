import OperatorScaffold.Proofs.Graph.Agreement
import OperatorScaffold.Proofs.Project.Reload
import OperatorScaffold.Proofs.Scaffold.Rerun
import OperatorScaffold.Proofs.Scaffold.Run
import OperatorScaffold.Proofs.Template
import OperatorScaffold.Proofs.Template.Go
import OperatorScaffold.Proofs.Workload
/-!
A run that is forced after one that succeeded: every file is found as the run would leave it.
-/

namespace OperatorScaffold

open ArtifactKind Marker Naming Workspace

namespace Workload

variable {w : Workload} {g : Template.Registry} {o : ScaffoldOptions} {header : String}
  {space s s' mid : Workspace} {path : Path} {order : List Resource} {records : List ScaffoldRecord}
  {report : ScaffoldReport}

theorem nodup_gvk_of_validate (h : w.validate = .ok order) : (order.map (·.gvk)).Nodup := by
  have hgvks : (w.resources.map (·.gvk)).Nodup := (decides_validate w).ok _ h .gvks
  exact ((perm_of_validate h).map _).nodup_iff.2 hgvks

/-- The metadata that a run writes, where it records anything new. -/
def written? (w : Workload) (order : List Resource) (g : Template.Registry) (o : ScaffoldOptions)
    (s : Workspace) : Option ProjectFile :=
  match Boilerplate.resolve s o.output o.boilerplate w.repository with
  | .error _ => none
  | .ok header => match (plan o.scope [] order).mapM (w.emit g o header) s with
    | (.error _, _) => none
    | (.ok _, mid) =>
      if o.scope.api && !o.mode.dryRun then
        ProjectFile.written? mid o.output w order o.scope.controllers
      else none

/-- Artifacts that were all emitted are as they were left, also when the project is recorded. -/
theorem atRest_of_mapM (hv : w.validate = .ok order) (hd : o.mode.dryRun = false)
    (hl : s.NoLinksBelow o.output)
    (hmap : (plan o.scope [] order).mapM (w.emit g o header) s = (.ok records, mid)) :
    (∀ x ∈ plan o.scope [] order, w.AtRest g o.output header mid x) ∧ s.Grows mid ∧
    ∀ outcome s', recordResources o.output w order o.scope.controllers mid = (.ok outcome, s') →
      ∀ x ∈ plan o.scope [] order, w.AtRest g o.output header s' x := by
  have hlaid : w.LaidOut order o.scope o.output s := laidOut hv hl
  have hrenders := forall_renders hmap
  obtain ⟨hb, hall⟩ := hlaid.emits_all hd hmap
  refine ⟨forall_atRest hall hrenders, hb.grows, fun outcome s' hrec => ?_⟩
  obtain ⟨ht, -⟩ := record_between hb hl hrec
  have hkeep := emissions_keep hall hlaid.separate (List.subset_cons_self _ _) hb.grows ht
    fun p hp p' hp' => List.mem_singleton.1 hp' ▸ hlaid.project p hp
  exact forall_atRest hkeep hrenders

/-- Before the project is recorded, a run with an API has put something below its root. -/
theorem has_of_atRest (hv : w.validate = .ok order) (hne : order ≠ []) (hapi : o.scope.api)
    (h : ∀ x ∈ plan o.scope [] order, w.AtRest g o.output header s x) :
    ∃ a dirs n, Ends a dirs n ∧ s.has (o.output.join a) := by
  cases order with
  | nil => exact absurd rfl hne
  | cons r rs =>
    have hmem : (r, groupVersion) ∈ plan o.scope [] (r :: rs) := by
      simp [plan, kindsFor, hapi]
    obtain ⟨q, e, hl, -⟩ := h _ hmem
    have hsound := sound_ofResource ((decides_validate w).ok _ hv .shapes)
      ((nodup_of_validate hv).2 r List.mem_cons_self)
    exact ⟨_, _, _, ends_relativePath hsound, has_iff.2 ⟨q, e, hl⟩⟩

/-- What a run recorded is recorded: the project says already what would be recorded again. -/
theorem same_of_recorded {outcome : WriteOutcome} (hv : w.validate = .ok order) (hne : order ≠ [])
    (hl : s.NoLinksBelow o.output) (hapi : o.scope.api) (hg : s.Grows mid)
    (hrest : ∀ x ∈ plan o.scope [] order, w.AtRest g o.output header mid x)
    (hread : ∀ p, ProjectFile.written? mid o.output w order o.scope.controllers = some p →
      (ProjectFile.read p.render).any (·.same p))
    (h : recordResources o.output w order o.scope.controllers mid = (.ok outcome, s')) :
    ∃ p, ProjectFile.loadSupported s' o.output = .ok (some p) ∧
      p.same (p.record w order o.scope.controllers (ProjectFile.configPath s' o.output w.source)) := by
  obtain ⟨a, dirs, n, ha, hin⟩ := has_of_atRest hv hne hapi hrest
  exact ProjectFile.same_of_recordResources (nodup_gvk_of_validate hv) hl hg ha hin hread h

theorem written?_of_mapM (hheader : Boilerplate.resolve s o.output o.boilerplate w.repository = .ok header)
    (hmap : (plan o.scope [] order).mapM (w.emit g o header) s = (.ok records, mid))
    (hapi : o.scope.api) (hd : o.mode.dryRun = false) :
    w.written? order g o s = ProjectFile.written? mid o.output w order o.scope.controllers := by
  unfold written?
  rw [hheader]
  dsimp only
  rw [hmap]
  exact if_pos (by simp [hapi, hd])

/-- A run that is forced after one that succeeded changes nothing: each file is what the run makes of
it, or is left to the user, and the project says already what there is to record. -/
theorem forced_again_changes_nothing (hw : parse space path = .ok w) (hv : w.validate = .ok order)
    (hd : o.mode.dryRun = false) (hl : s.NoLinksBelow o.output)
    (h : w.scaffold order g o s = (.ok report, s'))
    (hb : Boilerplate.resolve s' o.output o.boilerplate w.repository =
      Boilerplate.resolve s o.output o.boilerplate w.repository)
    (hread : ∀ p, w.written? order g o s = some p → (ProjectFile.read p.render).any (·.same p)) :
    ∃ again notices,
      w.scaffold order g { o with mode := ⟨true, false⟩ } s' = (.ok again, { s' with notices }) ∧
      (∀ record ∈ again.records, Idle record) ∧
      (o.scope.api → recordResources o.output w order o.scope.controllers s' = (.ok .unchanged, s')) := by
  have hne : order ≠ [] := by
    rintro rfl
    exact resources_ne_nil_of_parse hw (perm_of_validate hv).nil_eq.symm
  obtain ⟨-, header, mid, hheader, hmap, hrec⟩ := scaffold_eq_ok_iff.1 h
  obtain ⟨hmid, hg, hkeep⟩ := atRest_of_mapM hv hd hl hmap
  have hrest : ∀ x ∈ plan o.scope [] order, w.AtRest g o.output header s' x := by
    split at hrec
    · obtain ⟨outcome, hrec⟩ := hrec
      exact hkeep outcome s' hrec
    · rwa [hrec]
  -- The metadata is needed twice: to get past the checks, and to be recorded again at the end.
  have hproject (hapi : o.scope.api) : ∃ p, ProjectFile.loadSupported s' o.output = .ok (some p) ∧
      p.same (p.record w order o.scope.controllers (ProjectFile.configPath s' o.output w.source)) := by
    rw [if_pos (by simp [hapi, hd])] at hrec
    obtain ⟨outcome, hrec⟩ := hrec
    rw [written?_of_mapM hheader hmap hapi hd] at hread
    exact same_of_recorded hv hne hl hapi hg hmid hread hrec
  obtain ⟨records, notices, hmap, hidle⟩ := mapM_atRest hrest
  refine ⟨⟨records⟩, notices, scaffold_eq_ok_iff.2 ⟨?_, header, { s' with notices }, ?_, hmap, ?_⟩, hidle,
    fun hapi => ?_⟩
  · refine checkDestinations_eq_ok_iff.2 ⟨fun hapi => ?_, nofun⟩
    obtain ⟨p, hload, -⟩ := hproject hapi
    exact ⟨_, hload⟩
  · exact hb.trans hheader
  · split
    next hapi =>
      obtain ⟨p, hload, hsame⟩ := hproject (by simpa using hapi)
      exact ⟨.unchanged, ProjectFile.recordResources_eq_iff.2 (.same (s := { s' with notices }) hload hsame)⟩
    next => rfl
  · obtain ⟨p, hload, hsame⟩ := hproject hapi
    exact ProjectFile.recordResources_eq_iff.2 (.same hload hsame)

end Workload

/-!
One widget with its API, twice: where its package is a file, and where it is a link.
-/

namespace Widget

def document : String :=
  "\x7b\"apiVersion\": \"opforge.dev/v1alpha1\", \"kind\": \"StandaloneWorkload\", \"name\": \"widget\", \"spec\":
    \x7b\"repository\": \"r\", \"api\": \x7b\"group\": \"apps\", \"version\": \"v1\", \"kind\": \"Widget\"\x7d\x7d\x7d"

def resource : Resource :=
  ⟨"widget", .standalone, "apps", "v1", "Widget", "widgets", true, [], [], [], none, false, "/w.json"⟩

def workload : Workload := ⟨"widget", "/w.json", "r", ⟨"apps", "v1", none, true⟩, [resource], []⟩

def project : ProjectFile := .record .blank workload [resource] false "/w.json"

def header : String := "// Scaffolded by opforge for r."

def package : String :=
  Template.withOneNewline (Template.joinLines (Template.groupVersionLines (.of workload resource header)))

def types : String :=
  Template.withOneNewline (Template.joinLines (Template.apiTypesLines (.of workload resource header)))

/-- An output with an entry for the package, and with a text where the types are to be. -/
def space (entry : Entry) (text : String) : Workspace where
  files := ⟨[(["w.json"], .file (.text document) 0o644), (["out"], .directory),
    (["out", "apis"], .directory), (["out", "apis", "apps"], .directory),
    (["out", "apis", "apps", "v1"], .directory),
    (["out", "apis", "apps", "v1", "groupversion_info.go"], entry),
    (["out", "apis", "apps", "v1", "widget_types.go"], .file (.text text) 0o644)]⟩
  directory := []
  notices := []

def options : ScaffoldOptions := ⟨⟨"out"⟩, ⟨true, false⟩, ⟨true, false, false, false, false⟩, none⟩

def isWorkload : Except ParseError Workload → Bool
  | .ok ⟨name, source, repository, options,
      [⟨own, shape, group, version, kind, plural, namespaced, [], [], [], none, overrides, label⟩], []⟩ =>
    ([name, source, repository, own, group, version, kind, plural, label], options, shape, namespaced, overrides) =
      (["widget", "/w.json", "r", "widget", "apps", "v1", "Widget", "widgets", "/w.json"],
        ⟨"apps", "v1", none, true⟩, WorkloadKind.standalone, true, false)
  | _ => false

variable {entry : Entry} {q : Place} {notices : List Notice}

theorem eq_of_isWorkload {x : Except ParseError Workload} (h : isWorkload x) : x = .ok workload := by
  unfold isWorkload at h
  split at h
  next =>
    simp only [Prod.mk.injEq, decide_eq_true_eq, List.cons.injEq] at h
    obtain ⟨⟨rfl, rfl, rfl, rfl, rfl, rfl, rfl, rfl, rfl, -⟩, rfl, rfl, rfl, rfl⟩ := h
    rfl
  next => cases h

theorem isWorkload_document : (Workload.ofText? "/w.json" document).any isWorkload := by
  set_option maxRecDepth 2000 in
  have htext : document.toList = _ := String.toList_ofList
  rw [Workload.ofText?, Json.read, htext]
  decide +kernel

theorem parse_space (entry : Entry) (text : String) :
    Workload.parse (space entry text) ⟨"w.json"⟩ = .ok workload := by
  obtain ⟨r, hread, hr⟩ := (Option.any_eq_true _ _).1 isWorkload_document
  have hhere : (space entry text).canonical ⟨"w.json"⟩ = .ok ⟨"/w.json"⟩ := rfl
  have htext : (space entry text).readText ⟨"/w.json"⟩ = .ok document := rfl
  rw [Workload.parse_of_ofText? hhere htext (by decide) hread]
  exact eq_of_isWorkload hr

theorem validate_workload : workload.validate = .ok [resource] := (rfl)

theorem read_project : (ProjectFile.read project.render).any (·.same project) := by
  unfold ProjectFile.read Yaml.readTree Yaml.TokenStream.ofText
  rw [ProjectFile.toList_render]
  decide +kernel

theorem context_eq : Template.Context.of workload resource header =
    ⟨header, "r", ⟨"widget", "apps", "apps", "v1", "Widget", "widgets", true⟩, [], [], [],
      ["WidgetCheckReady"]⟩ := rfl

theorem quiet_context : (Template.Context.of workload resource header).Quiet := by
  rw [context_eq]
  refine ⟨unmarked_fixed rfl, unmarked_fixed rfl, ⟨isUpperCamel_iff.1 rfl, oneLine_fixed rfl, oneLine_fixed rfl,
    isKubeVersion_iff.1 rfl, unmarked_fixed rfl⟩, fun g hg => ?_, nofun, ?_, nofun, by decide⟩
  · cases hg <;> contradiction
  · exact List.forall_mem_singleton.2 (isUpperCamel_iff.1 rfl)

theorem parse_package : ∃ d, Document.parse package = .ok d := by
  obtain ⟨d, hd, -⟩ := Template.parse_unmarkedLines (Template.unmarked_groupVersionLines quiet_context)
  exact ⟨d, hd⟩

theorem parse_types : ∃ d, Document.parse types = .ok d := by
  obtain ⟨d, hd, -⟩ := Template.parse_unmarkedLines (Template.unmarked_apiTypesLines quiet_context)
  exact ⟨d, hd⟩

/-- They differ in the third line. -/
theorem package_ne_types : package ≠ types := by
  intro e
  have hclosed : (Template.apiTypesLines (.of workload resource header)).getLast?.any fun l =>
      l.toList.getLast?.any fun c => !Text.isBlank c := by
    rw [Template.apiTypesLines, List.getLast?_append]
    rfl
  rw [package, types, Template.rendered_of_closed rfl, Template.rendered_of_closed hclosed] at e
  simp only [Template.groupVersionLines, Template.apiTypesLines, List.cons_append, List.map_cons, String.join_cons,
    String.append_right_inj, String.append_assoc] at e
  have hhead := congrArg (fun s => s.toList.head?) e
  simp only [String.toList_append, List.head?_append] at hhead
  exact absurd hhead (by decide)

theorem render_package :
    Template.Registry.builtin.render ArtifactKind.groupVersion.template (.of workload resource header) =
      .ok package := rfl

theorem render_types :
    Template.Registry.builtin.render ArtifactKind.apiTypes.template (.of workload resource header) =
      .ok types := rfl

theorem resolve_space (entry : Entry) (text : String) :
    Boilerplate.resolve (space entry text) options.output options.boilerplate workload.repository =
      .ok header := rfl

/-- What a run leaves: the types, and the metadata. -/
def scaffolded (entry : Entry) (notices : List Notice) : Workspace :=
  { space entry types with notices }.put ["out", "PROJECT"] (.file (.text project.render) 0o644)

def record (kind : ArtifactKind) (outcome : WriteOutcome) : ScaffoldRecord :=
  ⟨"widget", kind, (workload.artifactOf options.output (resource, kind)).destination, outcome⟩

/-- The types are written, and the package is found as it was. -/
theorem emit_space (he : (space entry package).locate ⟨"out/apis/apps/v1/groupversion_info.go"⟩ =
      .ok (q, .file (.text package) 0o644)) :
    ∃ notices, (Workload.plan options.scope [] [resource]).mapM (workload.emit .builtin options header)
        (space entry package) =
      (.ok [record .groupVersion .unchanged, record .apiTypes .updated],
        { space entry types with notices }) := by
  obtain ⟨_, hread⟩ := parse_package
  obtain ⟨_, hread'⟩ := parse_types
  have hpackage : ∃ notices, (workload.artifactOf options.output (resource, .groupVersion)).scaffold .builtin
      ⟨true, false⟩ (.of workload resource header) (space entry package) =
        (.ok .unchanged, { space entry package with notices }) :=
    Artifact.scaffold_settled ⟨render_package, hread⟩ he rfl (by decide)
  obtain ⟨notices, hpackage⟩ := hpackage
  have htypes : (workload.artifactOf options.output (resource, .apiTypes)).scaffold .builtin
      ⟨true, false⟩ (.of workload resource header) { space entry package with notices } =
        (.ok .updated, { space entry types with notices }) := by
    have hfound : { space entry package with notices }.locate ⟨"out/apis/apps/v1/widget_types.go"⟩ =
        .ok (["out", "apis", "apps", "v1", "widget_types.go"], .file (.text package) 0o644) := rfl
    exact Artifact.scaffold_overwritten ⟨render_types, hread'⟩ hfound rfl package_ne_types rfl
  refine ⟨notices, Action.mapM_cons_ok (Workload.emit_of_scaffold (by decide) hpackage) ?_⟩
  exact Action.mapM_cons_ok (Workload.emit_of_scaffold (by decide) htypes) rfl

theorem resolve_scaffolded (entry : Entry) (notices : List Notice) :
    Boilerplate.resolve (scaffolded entry notices) options.output options.boilerplate workload.repository =
      .ok header := rfl

theorem configPath_space (text : String) :
    ProjectFile.configPath { space entry text with notices } options.output workload.source = "/w.json" := by
  have hroot : { space entry text with notices }.canonical options.output = .ok ⟨"/out"⟩ := rfl
  unfold ProjectFile.configPath
  rw [hroot]
  decide

theorem record_space : recordResources options.output workload [resource] options.scope.controllers
    { space entry types with notices } = (.ok .created, scaffolded entry notices) := by
  refine ProjectFile.recordResources_eq_iff.2 (.created rfl ?_)
  rw [configPath_space]
  rfl

theorem scaffold_space (he : (space entry package).locate ⟨"out/apis/apps/v1/groupversion_info.go"⟩ =
      .ok (q, .file (.text package) 0o644)) :
    (∃ notices, workload.scaffold [resource] .builtin options (space entry package) =
      (.ok ⟨[record .groupVersion .unchanged, record .apiTypes .updated]⟩, scaffolded entry notices)) ∧
    workload.written? [resource] .builtin options (space entry package) = some project := by
  obtain ⟨notices, hemit⟩ := emit_space he
  constructor
  · refine ⟨notices, Workload.scaffold_eq_ok_iff.2 ⟨rfl, header, _, resolve_space _ _, hemit, ?_⟩⟩
    exact ⟨.created, record_space⟩
  · rw [Workload.written?_of_mapM (resolve_space _ _) hemit rfl rfl, ProjectFile.written?_of_none rfl,
      configPath_space]
    rfl

/-- Behind a link the package is found to be the types. -/
theorem emit_scaffolded (notices : List Notice) :
    workload.emit .builtin options header (resource, .groupVersion)
        (scaffolded (.link ⟨"widget_types.go"⟩) notices) =
      (.ok (record .groupVersion .updated), (scaffolded (.link ⟨"widget_types.go"⟩) notices).put
        ["out", "apis", "apps", "v1", "groupversion_info.go"] (.file (.text package) 0o644)) := by
  have hfound : (scaffolded (.link ⟨"widget_types.go"⟩) notices).locate
      ⟨"out/apis/apps/v1/groupversion_info.go"⟩ =
        .ok (["out", "apis", "apps", "v1", "widget_types.go"], .file (.text types) 0o644) := rfl
  obtain ⟨_, hread⟩ := parse_package
  apply Workload.emit_of_scaffold (by decide)
  exact Artifact.scaffold_overwritten ⟨render_package, hread⟩ hfound rfl package_ne_types.symm rfl

/-- The package is there, and the types hold a copy of it. -/
def copied : Workspace := space (.file (.text package) 0o644) package

/-- The package is a link to the types, and these hold the text of the package. -/
def linked : Workspace := space (.link ⟨"widget_types.go"⟩) package

theorem forced_again_changes_nothing_beside_a_copy :
    ∃ report s', Workload.parse copied ⟨"w.json"⟩ = .ok workload ∧ workload.validate = .ok [resource] ∧
      copied.NoLinksBelow options.output ∧
      workload.scaffold [resource] .builtin options copied = (.ok report, s') ∧
      report.records.map (·.outcome) = [.unchanged, .updated] ∧
      ∃ again notices, workload.scaffold [resource] .builtin { options with mode := ⟨true, false⟩ } s' =
          (.ok again, { s' with notices }) ∧
        (∀ record ∈ again.records, Workload.Idle record) ∧
        (options.scope.api → recordResources options.output workload [resource] options.scope.controllers s' =
          (.ok .unchanged, s')) := by
  have hcopy : copied.locate ⟨"out/apis/apps/v1/groupversion_info.go"⟩ =
      .ok (["out", "apis", "apps", "v1", "groupversion_info.go"], .file (.text package) 0o644) := rfl
  obtain ⟨⟨notices, hrun⟩, hwritten⟩ := scaffold_space hcopy
  have hlinks : copied.NoLinksBelow options.output := noLinksBelow_of_entries (by simp [copied, space])
  have hread (p : ProjectFile) (hp : workload.written? [resource] .builtin options copied = some p) :
      (ProjectFile.read p.render).any (·.same p) := by
    obtain rfl := Option.some.inj (hwritten.symm.trans hp)
    exact read_project
  have hparse : Workload.parse copied ⟨"w.json"⟩ = .ok workload := parse_space _ _
  exact ⟨_, _, hparse, validate_workload, hlinks, hrun, rfl, Workload.forced_again_changes_nothing hparse
    validate_workload rfl hlinks hrun ((resolve_scaffolded _ _).trans (resolve_space _ _).symm) hread⟩

/-- Behind a link the package is found in the types, so that it is written again when they are. -/
theorem forced_again_overwrites_a_link :
    ∃ report s', Workload.parse linked ⟨"w.json"⟩ = .ok workload ∧ workload.validate = .ok [resource] ∧
      workload.scaffold [resource] .builtin options linked = (.ok report, s') ∧
      Boilerplate.resolve s' options.output options.boilerplate workload.repository =
        Boilerplate.resolve linked options.output options.boilerplate workload.repository ∧
      (∀ p, workload.written? [resource] .builtin options linked = some p →
        (ProjectFile.read p.render).any (·.same p)) ∧
      ∀ again s'', workload.scaffold [resource] .builtin { options with mode := ⟨true, false⟩ } s' =
        (.ok again, s'') → ¬∀ record ∈ again.records, Workload.Idle record := by
  have hlink : linked.locate ⟨"out/apis/apps/v1/groupversion_info.go"⟩ =
      .ok (["out", "apis", "apps", "v1", "widget_types.go"], .file (.text package) 0o644) := rfl
  obtain ⟨⟨notices, hrun⟩, hwritten⟩ := scaffold_space hlink
  refine ⟨_, _, parse_space _ _, validate_workload, hrun, (resolve_scaffolded _ _).trans (resolve_space _ _).symm,
    fun p hp => ?_, fun again s'' h hidle => ?_⟩
  · obtain rfl := Option.some.inj (hwritten.symm.trans hp)
    exact read_project
  · obtain ⟨-, _, mid, hheader, hmap, -⟩ := Workload.scaffold_eq_ok_iff.1 h
    obtain rfl := Except.ok.inj ((resolve_scaffolded _ _).symm.trans hheader)
    have hupdated := emit_scaffolded notices
    obtain ⟨e, he, -⟩ | ⟨first, s₁, rest, hfirst, -, hrecords⟩ := Action.mapM_cons_apply hmap
    · cases hupdated.symm.trans he
    obtain ⟨hfirst, -⟩ := Prod.mk.inj (hupdated.symm.trans hfirst)
    obtain rfl := Except.ok.inj hfirst
    cases rest with
    | error e => cases hrecords
    | ok rs =>
      have hmem : record .groupVersion .updated ∈ again.records := by
        rw [Except.ok.inj hrecords]
        exact List.mem_cons_self
      obtain he | he := hidle _ hmem <;> cases he

end Widget

end OperatorScaffold

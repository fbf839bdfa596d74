import OperatorScaffold.Proofs.Scaffold.Rehearsal
import OperatorScaffold.Proofs.Schema.Built
import OperatorScaffold.Proofs.Template.Go
import OperatorScaffold.Proofs.Template.Manifests
import OperatorScaffold.Proofs.Template.Readiness
/-!
The regions of rendered texts. Where no text of a workload has a marker line, each of its files can be
read, and only manifests have regions: those of the template and those that are declared.
-/

namespace OperatorScaffold

open Marker Text Naming

theorem IsGroup.guarded {s : String} (h : IsGroup s) : Guarded s := by
  refine guarded_of_barred ⟨h.oneLine, ?_⟩
  cases hs : s.toList with
  | nil => exact absurd (String.toList_eq_nil_iff.1 hs) h.1
  | cons c cs =>
    have hc := h.2 c (hs ▸ List.mem_cons_self)
    intro hj
    have hpair : Joined [' ', c] := hj.infix ⟨[], cs, rfl⟩
    have hspace : joins ' ' c := by simpa using hpair
    have hname : isNameChar c := by
      obtain hc | hc | rfl | rfl := hc
      · simp [isNameChar, isAlphanumeric, hc]
      · simp [isNameChar, isAlphanumeric, hc]
      · decide
      · decide
    rw [joins_blank rfl] at hspace
    obtain hb | rfl | rfl | rfl := hspace
    · exact not_isBlank_of_isNameChar hname hb
    all_goals exact absurd hname (by decide)

/-- No text of the workload that goes into a file as it is has a marker line. -/
structure Workload.Quiet (w : Workload) : Prop where
  repository : Unmarked w.repository.toList
  domain : ∀ d ∈ w.options.domain, Unmarked d.toList
  fields : ∀ r ∈ w.resources, ∀ g : Field, g.Inside r.fields → g.Quiet
  markers : ∀ r ∈ w.resources, ∀ m ∈ r.markers, Unmarked m.default.toList

instance : DecidablePred Field.Quiet := fun f =>
  decidable_of_iff (OneLine f.name ∧ (∀ t ∈ f.description, ∀ l ∈ Text.lines t, delimiter? ("// " ++ l) = none) ∧
      (∀ t ∈ f.description, Marker.Quiet t) ∧ ∀ d ∈ f.default, d.Quiet)
    ⟨fun ⟨hn, hc, ht, hd⟩ => ⟨hn, hc, ht, hd⟩, fun ⟨hn, hc, ht, hd⟩ => ⟨hn, hc, ht, hd⟩⟩

namespace Workload

variable {w : Workload} {space : Workspace} {path : Path} {order : List Resource} {r : Resource}

theorem Quiet.fullGroup (h : w.Quiet) (hg : IsGroup r.group) : Unmarked (w.fullGroup r).toList := by
  unfold Workload.fullGroup
  split
  next d hd =>
    split
    · exact hg.guarded.unmarked
    · exact (hg.guarded.append (oneLine_fixed rfl)).append_unmarked (h.domain d hd)
  next => exact hg.guarded.unmarked

theorem upperCamel_builtinPredicate {kind : String} (h : UpperCamel kind) : UpperCamel (builtinPredicate kind) :=
  h.append (isUpperCamel_iff.1 rfl)

/-- In a workload that is read and accepted, predicates are names of Go. -/
theorem upperCamel_readiness (hp : parse space path = .ok w) (hshapes : Rule.shapes.Holds w)
    (hends : Rule.endpoints.Holds w) : ∀ d ∈ w.dependencies, UpperCamel d.readiness := by
  intro d hd
  obtain h | ⟨r, hr, h⟩ := readiness_of_parse hp hd (hends d hd).2
  · exact isUpperCamel_iff.1 h
  · rw [h]
    exact upperCamel_builtinPredicate (hshapes.1 r hr).kind

open Template in
theorem Quiet.context (h : w.Quiet) (hp : parse space path = .ok w) (hv : w.validate = .ok order)
    (hr : r ∈ w.resources) {b : String} (hb : Unmarked b.toList) : (Context.of w r b).Quiet := by
  have hrules := (decides_validate w).ok order hv
  obtain ⟨hshaped, hmarkers⟩ := hrules .shapes
  have hready := upperCamel_readiness hp (hrules .shapes) (hrules .endpoints)
  have hshape := hshaped r hr
  refine ⟨hb.trimEnd, h.repository, ⟨hshape.kind, hshape.plural.oneLine, hshape.group.oneLine, hshape.version,
    h.fullGroup hshape.group⟩, h.fields r hr, fun a ha => ?_, fun p hp => ?_, fun m hm => ?_, ?_⟩
  · obtain ⟨d, hd, -, t, ht, rfl⟩ := mem_awaitedBy.1 ha
    have hshape := hshaped t (mem_of_resource? ht).1
    exact ⟨hshape.kind.oneLine, hshape.plural.oneLine, (hready d hd).oneLine, h.fullGroup hshape.group⟩
  · obtain rfl | ⟨d, hd, -, rfl⟩ := mem_predicatesOf.1 hp
    · exact upperCamel_builtinPredicate hshape.kind
    · exact hready d hd
  · exact ⟨isName_of_mem_markers hp hr m hm, h.markers r hr m hm⟩
  · obtain ⟨hn, hfresh⟩ := hmarkers r hr
    refine List.nodup_append.2 ⟨by decide, hn, fun a ha b hb he => hfresh b hb (he ▸ ha)⟩

end Workload

namespace Template

variable {c : Context} {ls : List String} {l y s t : String}

/-- Of a text behind closed lines that ends with blanks these are left away, and nothing may be left of it. -/
theorem rendered_before (hne : ls ≠ []) (h : withOneNewline (joinLines ls) = joinLines ls ++ "\n") (y : String) :
    ∃ more, withOneNewline (joinLines (ls ++ [y])) = String.join ((ls ++ more).map (· ++ "\n")) ∧
      ∀ l ∈ more, l = dropEnd isEndBlank y := by
  have hfeed : dropEnd isEndBlank "\n" = "" := rfl
  have hjoin : joinLines (ls ++ [y]) = joinLines ls ++ "\n" ++ y :=
    (String.intercalate_append_of_ne_nil hne (List.cons_ne_nil _ _)).trans
      (congrArg _ String.intercalate_singleton)
  unfold withOneNewline at h ⊢
  rw [hjoin, dropEnd_append]
  split
  next =>
    refine ⟨[], ?_, nofun⟩
    rw [dropEnd_append, if_pos hfeed, h, List.append_nil, joinLines_append_feed hne]
  next =>
    refine ⟨[dropEnd isEndBlank y], ?_, fun l => List.mem_singleton.1⟩
    rw [joinLines_append_feed hne, List.map_append, String.join_append]
    simp [String.append_assoc]

theorem getLast?_markerLines (m : CustomMarker) :
    (markerLines m).getLast? = some ("# +opforge:" ++ m.scope.name ++ ":end:" ++ m.name) :=
  List.getLast?_concat

/-- The line that closes a region ends with its name. -/
theorem closed_markerLines {ms : List CustomMarker} {m : CustomMarker} (hm : isName m.name) :
    (ls ++ (ms ++ [m]).flatMap markerLines).getLast?.any fun l => l.toList.getLast?.any fun c => !isBlank c := by
  have hne : m.name.toList ≠ [] := fun he => by
    rw [isName, he] at hm
    cases hm
  have hlast := List.getLast?_eq_some_getLast hne
  have hblank := not_isBlank_of_isNameChar (isNameChar_of_isName hm _ (List.getLast_mem hne))
  rw [List.flatMap_append, List.flatMap_singleton, ← List.append_assoc, List.getLast?_append,
    getLast?_markerLines, Option.some_or, Option.any_some, String.toList_append, List.getLast?_append, hlast,
    Option.some_or, Option.any_some]
  simpa using hblank

theorem parse_manifestLines (h : c.Quiet) : ∃ d,
    Document.parse (withOneNewline (joinLines (manifestLines c))) = .ok d ∧
      d.regions.map Region.account = generatedAccounts c ++ c.markers.map account := by
  have hschema := Schema.unmarked_yamlBlock (Schema.quiet_openApi h.fields) 10
  obtain hnone | ⟨ms, m, hms⟩ := List.eq_nil_or_concat' c.markers
  · -- The schema stands at the end, and may end with blanks.
    have hclosed : withOneNewline (joinLines (frameLines c ++ ["        openAPIV3Schema:"])) =
        joinLines (frameLines c ++ ["        openAPIV3Schema:"]) ++ "\n" := by
      obtain ⟨cs, hcs⟩ := exists_toList_joinLines (frameLines c) "        openAPIV3Schema:"
      have hcs : (joinLines (frameLines c ++ ["        openAPIV3Schema:"])).toList =
          (cs ++ "        openAPIV3Schema".toList) ++ [':'] := by simpa using hcs
      exact withOneNewline_eq hcs (by decide)
    obtain ⟨more, hrendered, hmore⟩ := rendered_before (by simp) hclosed (Schema.yamlBlock (Schema.openApi c.fields) 10)
    have hquiet : ∀ l ∈ more, Unmarked l.toList := fun l hl => by
      rw [hmore l hl]
      exact hschema.dropEnd isBlank_of_isEndBlank
    have hlines : manifestLines c = frameLines c ++ ["        openAPIV3Schema:"] ++
        [Schema.yamlBlock (Schema.openApi c.fields) 10] := by
      simp [manifestLines, schemaLines, hnone]
    rw [hlines, hrendered]
    have hread : Reads generatedMarkers.reverse ("        openAPIV3Schema:" :: (more ++ [])) [] :=
      .line (unmarked_fixed rfl) (.text hquiet .nil)
    have hframe := (reads_frameLines h hread).parse
    simpa [hnone] using hframe
  · have hclosed : (manifestLines c).getLast?.any fun l => l.toList.getLast?.any fun c => !isBlank c := by
      rw [manifestLines, hms]
      exact closed_markerLines (h.markers m (by simp [hms])).1
    have hnames : (generatedMarkers.reverse ++ c.markers.map (·.name)).Nodup :=
      ((List.reverse_perm _).append_right _).nodup_iff.2 h.names
    have hread : Reads generatedMarkers.reverse
        ("        openAPIV3Schema:" :: Schema.yamlBlock (Schema.openApi c.fields) 10 ::
          c.markers.flatMap markerLines) (c.markers.map account) :=
      .line (unmarked_fixed rfl) (.line hschema (reads_markers h.markers hnames))
    rw [rendered_of_closed hclosed]
    simpa [manifestLines, schemaLines] using (reads_frameLines h hread).parse

/-- What is told of the regions of a file. -/
def regionsOf (k : ArtifactKind) (c : Context) : List Account :=
  if k = .manifests then generatedAccounts c ++ c.markers.map account else []

theorem parse_builtinLines (h : c.Quiet) (k : ArtifactKind) : ∃ d,
    Document.parse (withOneNewline (joinLines (builtinLines k c))) = .ok d ∧
      d.regions.map Region.account = regionsOf k c := by
  have hnone {ls : List String} (hls : ∀ l ∈ ls, Unmarked l.toList) : ∃ d,
      Document.parse (withOneNewline (joinLines ls)) = .ok d ∧ d.regions.map Region.account = [] := by
    obtain ⟨d, hd, hregions⟩ := parse_unmarkedLines hls
    exact ⟨d, hd, by rw [hregions, List.map_nil]⟩
  cases k with
  | groupVersion => exact hnone (unmarked_groupVersionLines h)
  | apiTypes => exact hnone (unmarked_apiTypesLines h)
  | manifests => exact parse_manifestLines h
  | sample => exact hnone (unmarked_sampleLines h)
  | dependencies => exact hnone (unmarked_dependencyLines h)
  | controller => exact hnone (unmarked_controllerLines h)

end Template

namespace Workload

variable {w : Workload} {space : Workspace} {path : Path} {order : List Resource}

open Template

/-- A run whose renderings can all be read does not fail by one that cannot. -/
theorem no_invalid_template {g : Registry} {o : ScaffoldOptions} {s s' : Workspace} {label id : String}
    {cause : Marker.Error}
    (h : ∀ header, Boilerplate.resolve s o.output o.boilerplate w.repository = .ok header →
      ∀ x ∈ plan o.scope [] order, ∀ text, g.render x.2.template (.of w x.1 header) = .ok text →
        ∃ d, Document.parse text = .ok d) :
    w.scaffold order g o s ≠ (.error (.scaffold label (.invalidTemplate id cause)), s') := by
  intro hrun
  obtain ⟨_, _, he, hcause⟩ := scaffold_eq_error hrun
  obtain ⟨-, rfl⟩ := Error.scaffold.inj he
  obtain (⟨_, _, he⟩ | ⟨_, _, he⟩) | ⟨_, he⟩ | ⟨header, hheader, x, hx, found, hfault⟩ := hcause
  · cases he
  · cases he
  · cases he
  · cases hfault with
    | invalid hr hp =>
      obtain ⟨d, hd⟩ := h header hheader x hx _ hr
      rw [hd] at hp
      cases hp

/-- Where no text of a workload has a marker line, each of its files can be read. Manifests have the regions
of the template and those that are declared, in order, and no other file has any; no run fails by a
rendering that cannot be read. -/
theorem rendered_regions (hp : parse space path = .ok w) (hv : w.validate = .ok order) (hq : w.Quiet) :
    (∀ r ∈ w.resources, ∀ b, Unmarked b.toList → ∀ k : ArtifactKind, ∃ text d,
      Registry.builtin.render k.template (.of w r b) = .ok text ∧ Document.parse text = .ok d ∧
      d.regions.map Region.account = regionsOf k (.of w r b)) ∧
    ∀ (o : ScaffoldOptions) (s : Workspace),
      (∀ header, Boilerplate.resolve s o.output o.boilerplate w.repository = .ok header → Unmarked header.toList) →
      ∀ label id cause s', w.scaffold order .builtin o s ≠ (.error (.scaffold label (.invalidTemplate id cause)), s') := by
  have hparse (r : Resource) (hr : r ∈ w.resources) (b : String) (hb : Unmarked b.toList) (k : ArtifactKind) :=
    parse_builtinLines (hq.context hp hv hr hb) k
  refine ⟨fun r hr b hb k => ?_, fun o s hheader label id cause s' => no_invalid_template ?_⟩
  · obtain ⟨d, hd, hregions⟩ := hparse r hr b hb k
    exact ⟨_, d, render_builtin k _, hd, hregions⟩
  · intro header hh x hx text ht
    have hr : x.1 ∈ w.resources := (perm_of_validate hv).mem_iff.1 (mem_plan hx).1
    obtain ⟨d, hd, -⟩ := hparse x.1 hr header (hheader header hh) x.2
    obtain rfl := Except.ok.inj ((render_builtin x.2 _).symm.trans ht)
    exact ⟨d, hd⟩

end Workload

namespace Depot

/-- A field with a comment, and a marker with a default that ends with blanks. -/
def document : String :=
  "\x7b\"apiVersion\":\"opforge.dev/v1alpha1\",\"kind\":\"StandaloneWorkload\",\"name\":\"depot\",\"spec\":\x7b" ++
    "\"repository\":\"r\",\"domain\":\"acme.io\",\"api\":\x7b\"group\":\"g\",\"version\":\"v1\",\"kind\":\"Depot\"\x7d," ++
    "\"fields\":[\x7b\"name\":\"size\",\"type\":\"int\",\"description\":\"# of places\"\x7d]," ++
    "\"markers\":[\x7b\"name\":\"extra\",\"scope\":\"dynamic\",\"default\":\"a: 1\\n\\n\"\x7d]\x7d\x7d"

def documents : Workspace := ⟨⟨[(["w.json"], .file (.text document) 0o644)]⟩, [], []⟩

/-- All that is said of the texts of a workload without objects. -/
def isQuiet (w : Workload) : Bool :=
  decide (Unmarked w.repository.toList) && decide (∀ d ∈ w.options.domain, Unmarked d.toList) &&
    w.resources.all fun r => r.fields.all (fun f => f.fields.isEmpty && decide f.Quiet) &&
      decide (∀ m ∈ r.markers, Unmarked m.default.toList)

theorem quiet_of_isQuiet {w : Workload} (h : isQuiet w) : w.Quiet := by
  simp only [isQuiet, Bool.and_eq_true, decide_eq_true_eq, List.all_eq_true, List.isEmpty_iff] at h
  obtain ⟨⟨hrepository, hdomain⟩, hresources⟩ := h
  refine ⟨hrepository, hdomain, fun r hr g hg => ?_, fun r hr => (hresources r hr).2⟩
  have hfields := (hresources r hr).1
  cases hg with
  | here hf => exact (hfields g hf).2
  | deeper hf hg =>
    rw [(hfields _ hf).1] at hg
    cases hg with
    | here hf => cases hf
    | deeper hf _ => cases hf

theorem rendered_regions_of_a_declared_marker : ∃ w order r text d,
    Workload.parse documents ⟨"w.json"⟩ = .ok w ∧ w.validate = .ok order ∧ w.Quiet ∧ r ∈ w.resources ∧
      Template.Registry.builtin.render ArtifactKind.manifests.template (.of w r "") = .ok text ∧
      Document.parse text = .ok d ∧ d.regions.map Region.account =
        [("role-labels", .static, "    app.kubernetes.io/managed-by: opforge\n"), ("dependency-rules", .dynamic, ""),
          ("crd-annotations", .static, ""), ("extra", .dynamic, "a: 1\n")] := by
  have hrun : ((Workload.ofText? "/w.json" document).bind Except.toOption).any fun w =>
      isQuiet w && w.validate.toBool && w.resources.any fun r =>
        w.dependenciesOf r.name = [] ∧ r.markers = [⟨"extra", .dynamic, "a: 1\n\n"⟩] := by
    have htext : document.toList = _ :=
      Workload.toList_append_eq (Workload.toList_append_eq
        (Workload.toList_append_eq String.toList_ofList String.toList_ofList) String.toList_ofList)
        String.toList_ofList
    rw [Workload.ofText?, Json.read, htext]
    decide +kernel
  have hhere : documents.canonical ⟨"w.json"⟩ = .ok ⟨"/w.json"⟩ := rfl
  obtain ⟨w, hw, hrun⟩ := Workload.exists_parse_of_any hhere rfl (by decide) hrun
  simp only [Bool.and_eq_true, List.any_eq_true, decide_eq_true_eq] at hrun
  obtain ⟨⟨hq, hv⟩, r, hr, hdependencies, hmarkers⟩ := hrun
  cases hvalid : w.validate with
  | error e =>
    rw [hvalid] at hv
    cases hv
  | ok order =>
    have hquiet := quiet_of_isQuiet hq
    obtain ⟨text, d, hrender, hparse, hregions⟩ :=
      (Workload.rendered_regions hw hvalid hquiet).1 r hr "" unmarked_nil .manifests
    have hawaited : Template.awaitedBy w r.name = [] := by
      rw [Template.awaitedBy, hdependencies]
      rfl
    have haccount : Template.account ⟨"extra", .dynamic, "a: 1\n\n"⟩ = ("extra", .dynamic, "a: 1\n") := by
      decide
    refine ⟨w, order, r, text, d, hw, hvalid, hquiet, hr, hrender, hparse, ?_⟩
    rw [hregions, Template.regionsOf, if_pos rfl, Template.generatedAccounts]
    simp only [Template.Context.of, hawaited, hmarkers, List.map_nil, List.map_cons, haccount]
    rfl

end Depot

end OperatorScaffold

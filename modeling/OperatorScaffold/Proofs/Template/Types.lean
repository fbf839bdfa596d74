import OperatorScaffold.Proofs.Graph.Validation
import OperatorScaffold.Proofs.Template.Go
import OperatorScaffold.Proofs.Template.Mark
/-!
The types of a Go package. All files of a package declare their types in one scope, and a name is put
together of a kind and a path, so that names can agree where neither kinds nor paths do.
-/

namespace OperatorScaffold

open Marker Text Naming Schema Template

namespace Resource

/-- The types that the file of a resource declares, in the order of the file. -/
def declaredTypes (r : Resource) : List String :=
  (goTypes r.kind r.fields).map (·.name) ++ [r.kind ++ "Status", r.kind, r.kind ++ "List"]

/-- What the types have behind the kind of the resource. -/
def typeSuffixes (r : Resource) : List String :=
  "Spec" :: (objectPaths r.fields).map spelling ++ ["Status", "", "List"]

/-- No object is spelled as one of the types that every resource has, and no two objects are spelled
alike. -/
def Spelled (r : Resource) : Prop :=
  (∀ p ∈ objectPaths r.fields, spelling p ∉ ["Spec", "Status", "", "List"]) ∧
    ∀ p ∈ objectPaths r.fields, ∀ q ∈ objectPaths r.fields, spelling p = spelling q → p = q

/-- The kind of `s` goes on where the kind of `r` ends, and no type of `s` is spelled as one of `r`. -/
def KeepsApart (r s : Resource) : Prop :=
  ∀ rest ≠ "", s.kind = r.kind ++ rest → ∀ suffix ∈ s.typeSuffixes, rest ++ suffix ∉ r.typeSuffixes

variable {r s : Resource}

theorem declaredTypes_eq (r : Resource) : r.declaredTypes = r.typeSuffixes.map (r.kind ++ ·) := by
  simp [declaredTypes, typeSuffixes, goTypes, names_nestedTypes]

theorem mem_declaredTypes {name : String} : name ∈ r.declaredTypes ↔ ∃ suffix ∈ r.typeSuffixes, r.kind ++ suffix = name := by
  rw [declaredTypes_eq, List.mem_map]

theorem nodup_declaredTypes (hp : (objectPaths r.fields).Nodup) : r.declaredTypes.Nodup ↔ r.Spelled := by
  have hinj : Function.Injective (r.kind ++ ·) := fun _ _ h => (String.append_right_inj r.kind).1 h
  rw [declaredTypes_eq, List.nodup_map_iff hinj, typeSuffixes, List.nodup_append, List.nodup_cons,
    List.nodup_map_iff_inj_on hp]
  constructor
  · rintro ⟨⟨hspec, halike⟩, -, hfixed⟩
    refine ⟨fun p hp hm => ?_, halike⟩
    have hmem := List.mem_map_of_mem (f := spelling) hp
    obtain h | h := List.mem_cons.1 hm
    · exact hspec (h ▸ hmem)
    · exact hfixed _ (List.mem_cons_of_mem _ hmem) _ h rfl
  · rintro ⟨hfixed, halike⟩
    refine ⟨⟨fun hm => ?_, halike⟩, by decide, List.forall_mem_cons.2 ⟨by decide, ?_⟩⟩
    · obtain ⟨p, hp, he⟩ := List.mem_map.1 hm
      exact hfixed p hp (he ▸ List.mem_cons_self)
    · rintro _ ha b hb rfl
      obtain ⟨p, hp, rfl⟩ := List.mem_map.1 ha
      exact hfixed p hp (List.mem_cons_of_mem _ hb)

theorem keepsApart_of_disjoint (h : r.declaredTypes.Disjoint s.declaredTypes) : r.KeepsApart s := by
  intro rest _ hk suffix hs hr
  have hname : r.kind ++ (rest ++ suffix) = s.kind ++ suffix := by rw [hk, String.append_assoc]
  exact h (mem_declaredTypes.2 ⟨_, hr, hname⟩) (mem_declaredTypes.2 ⟨_, hs, rfl⟩)

theorem keepsApart_of_kind_eq (h : r.kind = s.kind) : r.KeepsApart s := by
  intro rest hne hk
  rw [h] at hk
  have hrest : s.kind ++ rest = s.kind ++ "" := by rw [← hk, String.append_empty]
  exact absurd ((String.append_right_inj _).1 hrest) hne

/-- Of two texts with the same beginnings one goes on where the other ends. -/
theorem exists_rest {a b x y : String} (h : a ++ x = b ++ y) :
    (∃ rest, b = a ++ rest ∧ x = rest ++ y) ∨ ∃ rest, a = b ++ rest ∧ y = rest ++ x := by
  have h := congrArg String.toList h
  rw [String.toList_append, String.toList_append] at h
  obtain ⟨cs, hb, hx⟩ | ⟨cs, ha, hy⟩ := List.append_eq_append_iff.1 h
  · exact .inl ⟨.ofList cs, String.toList_injective (by simpa using hb), String.toList_injective (by simpa using hx)⟩
  · exact .inr ⟨.ofList cs, String.toList_injective (by simpa using ha), String.toList_injective (by simpa using hy)⟩

theorem disjoint_declaredTypes (h : r.kind ≠ s.kind) :
    r.declaredTypes.Disjoint s.declaredTypes ↔ r.KeepsApart s ∧ s.KeepsApart r := by
  refine ⟨fun hd => ⟨keepsApart_of_disjoint hd, keepsApart_of_disjoint hd.symm⟩, ?_⟩
  rintro ⟨hrs, hsr⟩ name hr hs
  obtain ⟨x, hx, rfl⟩ := mem_declaredTypes.1 hr
  obtain ⟨y, hy, he⟩ := mem_declaredTypes.1 hs
  obtain ⟨rest, hk, rfl⟩ | ⟨rest, hk, rfl⟩ := exists_rest he
  · refine hsr rest ?_ hk _ hx hy
    rintro rfl
    exact h (by simpa using hk)
  · refine hrs rest ?_ hk _ hy hx
    rintro rfl
    exact h (by simpa using hk.symm)

end Resource

namespace Template

/-- The line that starts the declaration of a type. -/
def declaration : Mark := ⟨"type ", " struct \x7b"⟩

theorem declaration_start : "type ".toList <+: declaration.start.toList := List.prefix_rfl

variable {c : Context} {t : GoType} {g : GoField}

open Mark

theorem found_fieldLines (h : g.OneLined) : (fieldLines g).flatMap declaration.found = [] := by
  have hd := declaration_start
  have hcomments : ∀ s ∈ g.comments, declaration.found s!"\t// {s}" = [] := fun s hs =>
    found_line hd (h.comments s hs) rfl
  have hfield : declaration.found s!"\t{g.name} {g.type} \x60json:\"{g.jsonTag}\"\x60" = [] := by
    simp only [String.append_assoc, toString_text]
    refine found_line hd ?_ rfl
    simp only [oneLine_append, h.name, h.type, h.jsonTag, true_and]
    exact ⟨oneLine_fixed rfl, oneLine_fixed rfl, oneLine_fixed rfl⟩
  rw [fieldLines, List.flatMap_append, flatMap_found_eq_nil (List.forall_mem_map.2 hcomments),
    flatMap_found_eq_nil (List.forall_mem_singleton.2 hfield)]
  rfl

theorem found_typeLines (h : t.OneLined) : (typeLines t).flatMap declaration.found = [t.name] := by
  have hd := declaration_start
  have hblank : declaration.found "" = [] := found_blank hd rfl
  have hcomment : declaration.found s!"// {t.name} {t.doc}" = [] := by
    simp only [String.append_assoc, toString_text]
    refine found_line hd ?_ rfl
    simp only [oneLine_append, h.name, h.doc, true_and, and_true]
    exact oneLine_fixed rfl
  have hstart : declaration.found s!"type {t.name} struct \x7b" = [t.name] := by
    refine found_between ?_
    exact oneLine_append.2 ⟨oneLine_append.2 ⟨oneLine_fixed rfl, h.name⟩, oneLine_fixed rfl⟩
  have hfields : (t.fields.flatMap fieldLines).flatMap declaration.found = [] := by
    rw [List.flatMap_assoc, List.flatMap_eq_nil_iff]
    exact fun g hg => found_fieldLines (h.fields g hg)
  have hend : declaration.found "\x7d" = [] := found_fixed hd rfl
  simp only [typeLines, List.flatMap_append, List.flatMap_cons, List.flatMap_nil, hblank, hcomment, hstart, hfields,
    hend]
  rfl

/-- A declaration whose name ends with a fixed text. -/
theorem found_declaration {kind suffix line : String} (hk : OneLine kind) (hs : OneLine suffix)
    (hl : suffix ++ declaration.stop = line) : declaration.found ("type " ++ (kind ++ line)) = [kind ++ suffix] := by
  have he : "type " ++ (kind ++ line) = declaration.start ++ (kind ++ suffix) ++ declaration.stop := by
    rw [← hl, String.append_assoc, String.append_assoc]
    rfl
  rw [he]
  refine found_between ?_
  exact oneLine_append.2 ⟨oneLine_append.2 ⟨oneLine_fixed rfl, oneLine_append.2 ⟨hk, hs⟩⟩, oneLine_fixed rfl⟩

theorem found_apiTypesLines (hkind : OneLine c.resource.kind) (hplural : OneLine c.resource.plural)
    (hversion : OneLine c.resource.version) (hnames : ∀ f : Field, f.Inside c.fields → OneLine f.name)
    (hb : declaration.found c.boilerplate = []) :
    (apiTypesLines c).flatMap declaration.found = (goTypes c.resource.kind c.fields).map (·.name) ++
      [c.resource.kind ++ "Status", c.resource.kind, c.resource.kind ++ "List"] := by
  have hd := declaration_start
  have hblank : declaration.found "" = [] := found_blank hd rfl
  have hstatus : declaration.found ("type " ++ (c.resource.kind ++ "Status struct \x7b")) =
      [c.resource.kind ++ "Status"] := found_declaration hkind (oneLine_fixed rfl) rfl
  have hresource : declaration.found ("type " ++ (c.resource.kind ++ " struct \x7b")) =
      [c.resource.kind ++ ""] := found_declaration hkind (oneLine_fixed rfl) rfl
  rw [String.append_empty] at hresource
  have hlist : declaration.found ("type " ++ (c.resource.kind ++ "List struct \x7b")) =
      [c.resource.kind ++ "List"] := found_declaration hkind (oneLine_fixed rfl) rfl
  have htypes : ((goTypes c.resource.kind c.fields).flatMap typeLines).flatMap declaration.found =
      (goTypes c.resource.kind c.fields).map (·.name) := by
    rw [List.flatMap_assoc, List.map_eq_flatMap]
    exact List.flatMap_congr fun t ht => found_typeLines (oneLined_goTypes hkind hnames t ht)
  unfold apiTypesLines
  dsimp only
  simp only [List.flatMap_append, htypes, String.append_assoc, toString_text]
  rw [flatMap_found_eq_nil, List.nil_append]
  · congr 1
    refine found_skip hblank <| found_skip (found_line hd ?_ rfl) <| found_take hstatus <|
      found_skip (found_fixed hd rfl) <| found_skip (found_fixed hd rfl) <| found_skip (found_fixed hd rfl) <|
      found_skip (found_fixed hd rfl) <| found_skip hblank <| found_skip (found_fixed hd rfl) <|
      found_skip (found_fixed hd rfl) <| found_skip (found_line hd ?_ rfl) <| found_skip hblank <|
      found_skip (found_line hd ?_ rfl) <| found_take hresource <| found_skip (found_fixed hd rfl) <|
      found_skip (found_fixed hd rfl) <| found_skip hblank <| found_skip (found_line hd ?_ rfl) <|
      found_skip (found_line hd ?_ rfl) <| found_skip (found_fixed hd rfl) <| found_skip hblank <|
      found_skip (found_fixed hd rfl) <| found_skip hblank <| found_skip (found_line hd ?_ rfl) <|
      found_take hlist <| found_skip (found_fixed hd rfl) <| found_skip (found_fixed hd rfl) <|
      found_skip (found_line hd ?_ rfl) <| found_skip (found_fixed hd rfl) <| found_skip hblank <|
      found_skip (found_fixed hd rfl) <| found_skip (found_line hd ?_ rfl) <|
      found_skip (found_fixed hd rfl) rfl
    all_goals simp only [oneLine_append, hkind, hplural, Identity.oneLine_scope, true_and, and_true]
    all_goals and_intros
    all_goals exact oneLine_fixed rfl
  · simp only [List.forall_mem_cons]
    exact ⟨hb, hblank, found_line hd hversion rfl, hblank, found_fixed hd rfl, found_fixed hd rfl,
      found_fixed hd rfl, hblank, found_fixed hd rfl, found_fixed hd rfl, List.forall_mem_nil _⟩

theorem found_apiTypes (hkind : OneLine c.resource.kind) (hplural : OneLine c.resource.plural)
    (hversion : OneLine c.resource.version) (hnames : ∀ f : Field, f.Inside c.fields → OneLine f.name)
    (hb : declaration.found c.boilerplate = []) :
    declaration.found (withOneNewline (joinLines (apiTypesLines c))) =
      (goTypes c.resource.kind c.fields).map (·.name) ++
        [c.resource.kind ++ "Status", c.resource.kind, c.resource.kind ++ "List"] := by
  have hlast : (apiTypesLines c).getLast? = some (.ofList ([] ++ ['\x7d'])) := by
    unfold apiTypesLines
    dsimp only
    rw [List.getLast?_append]
    rfl
  rw [found_rendered (found_blank declaration_start rfl) hlast (by decide),
    found_apiTypesLines hkind hplural hversion hnames hb]

end Template

namespace Workload

variable {w : Workload} {space : Workspace} {path : Path} {order : List Resource}

/-- The types of a package are declared once if and only if in each resource the paths to the objects are
spelled apart, from each other and from the types that every resource has, and no type of a resource is
spelled as one of a resource whose kind is a beginning of its own. The types are those that the files
declare. -/
theorem types_are_declared_once_iff (hp : parse space path = .ok w) (hv : w.validate = .ok order)
    (group version : String) :
    let package := w.resources.filter fun r => r.group = group ∧ r.version = version
    ((package.flatMap Resource.declaredTypes).Nodup ↔
      (∀ r ∈ package, r.Spelled) ∧ ∀ r ∈ package, ∀ s ∈ package, r.KeepsApart s) ∧
    ∀ r ∈ package, ∀ b, (∀ f : Field, f.Inside r.fields → OneLine f.name) →
      declaration.found (trimEnd b) = [] → ∃ text,
        Registry.builtin.render ArtifactKind.apiTypes.template (.of w r b) = .ok text ∧
          declaration.found text = r.declaredTypes := by
  intro package
  have hrules := (decides_validate w).ok order hv
  have hmem (r : Resource) (hr : r ∈ package) : r ∈ w.resources ∧ r.group = group ∧ r.version = version := by
    simpa [package] using hr
  have hpaths (r : Resource) (hr : r ∈ package) : (objectPaths r.fields).Nodup := by
    obtain ⟨hn, hb⟩ := built_of_parse hp (hmem r hr).1
    exact nodup_objectPaths hn hb
  have hgvks : (package.map (·.gvk)).Nodup := (List.filter_sublist.map _).nodup (hrules .gvks)
  have hkinds (r s : Resource) (hr : r ∈ package) (hs : s ∈ package) (he : r.kind = s.kind) : r = s := by
    obtain ⟨-, hgroup, hversion⟩ := hmem r hr
    obtain ⟨-, hgroup', hversion'⟩ := hmem s hs
    refine List.inj_on_of_nodup_map hgvks hr hs ?_
    simp only [Resource.gvk, hgroup, hgroup', hversion, hversion', he]
  refine ⟨?_, fun r hr b hnames hb => ⟨_, render_builtin .apiTypes _, ?_⟩⟩
  · rw [List.nodup_flatMap]
    refine and_congr (forall₂_congr fun r hr => Resource.nodup_declaredTypes (hpaths r hr)) ⟨fun h r hr s hs => ?_, fun h => ?_⟩
    · by_cases he : r.kind = s.kind
      · exact Resource.keepsApart_of_kind_eq he
      · have hdisjoint : Std.Symm (Function.onFun List.Disjoint Resource.declaredTypes) := ⟨fun _ _ => List.Disjoint.symm⟩
        exact Resource.keepsApart_of_disjoint (h.forall hr hs fun hrs => he (hrs ▸ rfl))
    · refine hgvks.of_map.pairwise_of_forall_ne fun r hr s hs hne => ?_
      have he : r.kind ≠ s.kind := fun he => hne (hkinds r s hr hs he)
      exact (Resource.disjoint_declaredTypes he).2 ⟨h r hr s hs, h s hs r hr⟩
  · have hshape := (hrules .shapes).1 r (hmem r hr).1
    exact found_apiTypes hshape.kind.oneLine hshape.plural.oneLine hshape.version.oneLine hnames hb

end Workload

namespace Panel

/-- An object that is named as a type that every resource has. -/
def document : String :=
  "\x7b\"apiVersion\":\"opforge.dev/v1alpha1\",\"kind\":\"StandaloneWorkload\",\"name\":\"panel\",\"spec\":\x7b" ++
    "\"repository\":\"r\",\"api\":\x7b\"group\":\"g\",\"version\":\"v1\",\"kind\":\"Panel\"\x7d,\"fields\":[\x7b" ++
    "\"name\":\"status\",\"type\":\"object\",\"fields\":[\x7b\"name\":\"lamp\",\"type\":\"string\"\x7d]\x7d]\x7d\x7d"

def documents : Workspace := ⟨⟨[(["w.json"], .file (.text document) 0o644)]⟩, [], []⟩

/-- The document is accepted, and the type of the object is declared twice. -/
theorem a_type_is_declared_twice : ∃ w order r, Workload.parse documents ⟨"w.json"⟩ = .ok w ∧
    w.validate = .ok order ∧ r ∈ w.resources ∧ spelling ["status"] = "Status" ∧ ["status"] ∈ objectPaths r.fields ∧
    ¬((w.resources.filter fun r => r.group = "g" ∧ r.version = "v1").flatMap Resource.declaredTypes).Nodup := by
  have hrun : ((Workload.ofText? "/w.json" document).bind Except.toOption).any fun w =>
      w.validate.toBool && w.resources.any fun r => r.group = "g" ∧ r.version = "v1" ∧
        r.fields.any fun f => f.name = "status" ∧ f.kind = .object := by
    have htext : document.toList = _ :=
      Workload.toList_append_eq (Workload.toList_append_eq String.toList_ofList String.toList_ofList)
        String.toList_ofList
    rw [Workload.ofText?, Json.read, htext]
    decide +kernel
  have hhere : documents.canonical ⟨"w.json"⟩ = .ok ⟨"/w.json"⟩ := rfl
  obtain ⟨w, hw, hrun⟩ := Workload.exists_parse_of_any hhere rfl (by decide) hrun
  obtain ⟨hv, hrun⟩ := Bool.and_eq_true_iff.1 hrun
  obtain ⟨r, hr, hrun⟩ := List.any_eq_true.1 hrun
  obtain ⟨hg, hversion, hrun⟩ := of_decide_eq_true hrun
  obtain ⟨f, hf, hrun⟩ := List.any_eq_true.1 hrun
  obtain ⟨hn, hk⟩ := of_decide_eq_true hrun
  have hpath : ["status"] ∈ objectPaths r.fields := hn ▸ mem_objectPaths_of_mem hf hk
  have hspelling : spelling ["status"] = "Status" := by decide
  cases hvalid : w.validate with
  | error e =>
    rw [hvalid] at hv
    cases hv
  | ok order =>
    refine ⟨w, order, r, hw, hvalid, hr, hspelling, hpath, fun hnodup => ?_⟩
    have hspelled := ((Workload.types_are_declared_once_iff hw hvalid "g" "v1").1.1 hnodup).1 r
      (List.mem_filter.2 ⟨hr, decide_eq_true ⟨hg, hversion⟩⟩)
    exact hspelled.1 _ hpath (hspelling ▸ by decide)

end Panel

end OperatorScaffold

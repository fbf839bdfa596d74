import OperatorScaffold.Proofs.Graph.Validation
import OperatorScaffold.Proofs.Template
import OperatorScaffold.Proofs.Text.Lines
import OperatorScaffold.Proofs.Text.Split
import OperatorScaffold.Proofs.Workload
/-!
The objects that the manifests declare for the whole cluster. Names are taken in a group and version
only, so that two resources agree on the name of an object where they are apart in one of both.
-/

namespace OperatorScaffold

open Naming Template Text

/-- The name of the role that may edit what is of the kind. -/
def Resource.roleName (r : Resource) : String := r.singular ++ "-editor-role"

/-- The name under which the kind is defined. -/
def Workload.definitionName (w : Workload) (r : Resource) : String := r.plural ++ "." ++ w.fullGroup r

namespace Template

/-- The lines that an object of a kind starts with, after others. -/
def objectLines (api kind name : String) : List String :=
  ["---", "apiVersion: " ++ api, "kind: " ++ kind, "metadata:", "  name: " ++ name]

def Declares (text api kind name : String) : Prop :=
  ∃ before after, text = before ++ "\n" ++ joinLines (objectLines api kind name) ++ "\n" ++ after

variable {c : Context} {api kind name : String}

/-- A rendering loses only the blanks at its end, so that it has the object if more follows. -/
theorem declares_of_lines {before after : List String} {l : String} {x : Char} (hb : before ≠ [])
    (hl : x ∈ l.toList) (hx : ¬isEndBlank x) :
    Declares (withOneNewline (joinLines (before ++ (objectLines api kind name ++ l :: after)))) api kind name := by
  have hobject : objectLines api kind name ≠ [] := List.cons_ne_nil _ _
  have hrest : dropEnd isEndBlank (joinLines (l :: after)) ≠ "" :=
    dropEnd_ne_empty (mem_joinLines_cons hl after) hx
  refine ⟨joinLines before, dropEnd isEndBlank (joinLines (l :: after)) ++ "\n", ?_⟩
  rw [joinLines_append hb (List.append_ne_nil_of_left_ne_nil hobject _),
    joinLines_append hobject (List.cons_ne_nil _ _), withOneNewline, ← String.append_assoc, ← String.append_assoc,
    dropEnd_append, if_neg hrest]
  simp only [String.append_assoc]

theorem declares_role (c : Context) : Declares (withOneNewline (joinLines (manifestLines c)))
    "rbac.authorization.k8s.io/v1" "ClusterRole" (c.resource.singular ++ "-editor-role") := by
  have hlines : ∃ before after, before ≠ [] ∧ manifestLines c = before ++ (objectLines
      "rbac.authorization.k8s.io/v1" "ClusterRole" (c.resource.singular ++ "-editor-role") ++ "  labels:" :: after) :=
    ⟨[_, _, _], _, List.cons_ne_nil _ _, rfl⟩
  obtain ⟨before, after, hb, hlines⟩ := hlines
  rw [hlines]
  exact declares_of_lines (x := 'l') hb (by decide) (by decide)

theorem declares_definition (c : Context) : Declares (withOneNewline (joinLines (manifestLines c)))
    "apiextensions.k8s.io/v1" "CustomResourceDefinition" (c.resource.plural ++ "." ++ c.resource.fullGroup) := by
  have hframe : ∃ lead tail, frameLines c = lead ++ c.dependencies.map ruleLine ++
      "  # +opforge:dynamic:end:dependency-rules" :: (objectLines "apiextensions.k8s.io/v1" "CustomResourceDefinition"
        (c.resource.plural ++ "." ++ c.resource.fullGroup) ++ "  annotations:" :: tail) := ⟨_, _, rfl⟩
  obtain ⟨lead, tail, hframe⟩ := hframe
  have hlines : manifestLines c = (lead ++ c.dependencies.map ruleLine ++
      ["  # +opforge:dynamic:end:dependency-rules"]) ++ (objectLines "apiextensions.k8s.io/v1"
        "CustomResourceDefinition" (c.resource.plural ++ "." ++ c.resource.fullGroup) ++ "  annotations:" ::
          (tail ++ (schemaLines c.fields ++ c.markers.flatMap markerLines))) := by
    simp [manifestLines, hframe]
  rw [hlines]
  exact declares_of_lines (x := 'a') (List.append_ne_nil_of_right_ne_nil _ (List.cons_ne_nil _ _)) (by decide) (by decide)

end Template

variable {w : Workload} {r s : Resource} {space : Workspace} {path : Path} {order : List Resource}

theorem Resource.roleName_inj : r.roleName = s.roleName ↔ toLower r.kind = toLower s.kind :=
  String.append_left_inj _

namespace Workload

theorem fullGroup_inj (w : Workload) : w.fullGroup r = w.fullGroup s ↔ r.group = s.group := by
  unfold fullGroup
  split
  next d _ =>
    split
    · rfl
    · exact (String.append_left_inj d).trans (String.append_left_inj ".")
  next => rfl

theorem definitionName_inj (w : Workload) (hr : IsPlural r.plural) (hs : IsPlural s.plural) :
    w.definitionName r = w.definitionName s ↔ r.group = s.group ∧ r.plural = s.plural := by
  have hdot {p : String} (hp : IsPlural p) : '.' ∉ p.toList := fun h => absurd (hp.2 _ h) (by decide)
  have happend (r : Resource) : (w.definitionName r).toList = r.plural.toList ++ '.' :: (w.fullGroup r).toList := by
    simp [definitionName]
  constructor
  · intro h
    have h := congrArg String.toList h
    rw [happend, happend] at h
    have hfull : (w.fullGroup r).toList = (w.fullGroup s).toList := eq_of_behind (hdot hr) (hdot hs) h
    rw [hfull] at h
    exact ⟨w.fullGroup_inj.1 (String.toList_inj.1 hfull), String.toList_inj.1 (List.append_cancel_right h)⟩
  · rintro ⟨hg, hp⟩
    rw [definitionName, definitionName, hp, w.fullGroup_inj.2 hg]

/-- Two resources that share the name of an object are apart in group or version. -/
theorem apart_of_validate (hv : w.validate = .ok order) : w.resources.Pairwise fun r s =>
    (r.roleName = s.roleName → r.group = s.group → r.version ≠ s.version) ∧
    (w.definitionName r = w.definitionName s → r.version ≠ s.version) := by
  have hrules := (decides_validate w).ok order hv
  have hshaped : ∀ r ∈ w.resources, r.WellShaped := (hrules .shapes).1
  refine (hrules .names).2.imp_of_mem fun {r s} hr hs h => ⟨fun hn hg hversion => ?_, fun hn hversion => ?_⟩
  · exact h hg hversion _ (.inl rfl) (.inl (Resource.roleName_inj.1 hn))
  · obtain ⟨hg, hplural⟩ := (w.definitionName_inj (hshaped r hr).plural (hshaped s hs).plural).1 hn
    exact h hg hversion _ (.inr rfl) (.inr (congrArg toLower hplural))

/-- Roles are told apart by their names in each group and version, and definitions in each version. The
manifests declare them under these names, and the same names are taken again where kinds agree in lower
case, or where groups and plurals agree. -/
theorem objects_are_told_apart_in_a_version (hv : w.validate = .ok order) :
    (∀ r ∈ w.resources, ∀ b, ∃ text, Registry.builtin.render ArtifactKind.manifests.template (.of w r b) = .ok text ∧
      Declares text "rbac.authorization.k8s.io/v1" "ClusterRole" r.roleName ∧
      Declares text "apiextensions.k8s.io/v1" "CustomResourceDefinition" (w.definitionName r)) ∧
    (∀ group version, ((w.resources.filter fun r => r.group = group ∧ r.version = version).map (·.roleName)).Nodup) ∧
    (∀ version, ((w.resources.filter fun r => r.version = version).map w.definitionName).Nodup) ∧
    ∀ r ∈ w.resources, ∀ s ∈ w.resources, (r.roleName = s.roleName ↔ toLower r.kind = toLower s.kind) ∧
      (w.definitionName r = w.definitionName s ↔ r.group = s.group ∧ r.plural = s.plural) := by
  have hshaped : ∀ r ∈ w.resources, r.WellShaped := ((decides_validate w).ok order hv .shapes).1
  have hapart := apart_of_validate hv
  refine ⟨fun r _ b => ⟨_, render_builtin .manifests _, declares_role _, declares_definition _⟩,
    fun group version => ?_, fun version => ?_,
    fun r hr s hs => ⟨Resource.roleName_inj, w.definitionName_inj (hshaped r hr).plural (hshaped s hs).plural⟩⟩
  · rw [List.Nodup, List.pairwise_map, List.pairwise_filter]
    refine hapart.imp fun {r s} h hr hs hn => ?_
    obtain ⟨hg, hversion⟩ := of_decide_eq_true hr
    obtain ⟨hg', hversion'⟩ := of_decide_eq_true hs
    exact h.1 hn (hg.trans hg'.symm) (hversion.trans hversion'.symm)
  · rw [List.Nodup, List.pairwise_map, List.pairwise_filter]
    refine hapart.imp fun {r s} h hr hs hn => ?_
    exact h.2 hn ((of_decide_eq_true hr).trans (of_decide_eq_true hs).symm)

end Workload

namespace Twins

/-- A collection with a companion of another version, whose kind is spelled as its own but for the case. -/
def document : String :=
  "\x7b\"apiVersion\":\"opforge.dev/v1alpha1\",\"kind\":\"WorkloadCollection\",\"name\":\"elder\",\"spec\":\x7b" ++
    "\"repository\":\"r\",\"api\":\x7b\"group\":\"a\",\"version\":\"v1\",\"kind\":\"FooBar\"\x7d,\"components\":[\x7b" ++
    "\"apiVersion\":\"opforge.dev/v1alpha1\",\"kind\":\"ComponentWorkload\",\"name\":\"younger\",\"spec\":\x7b" ++
    "\"api\":\x7b\"version\":\"v2\",\"kind\":\"Foobar\"\x7d\x7d\x7d]\x7d\x7d"

def documents : Workspace := ⟨⟨[(["w.json"], .file (.text document) 0o644)]⟩, [], []⟩

theorem exists_accepted : ∃ w order r s, Workload.parse documents ⟨"w.json"⟩ = .ok w ∧ w.validate = .ok order ∧
    w.resources = [r, s] ∧ r.kind = "FooBar" ∧ s.kind = "Foobar" ∧ r.group = s.group ∧ r.plural = s.plural := by
  have hrun : ((Workload.ofText? "/w.json" document).bind Except.toOption).any fun w =>
      w.validate.toBool && w.resources.map (fun r => (r.kind, r.group, r.plural)) =
        [("FooBar", "a", "foobars"), ("Foobar", "a", "foobars")] := by
    have htext : document.toList = _ :=
      Workload.toList_append_eq (Workload.toList_append_eq (Workload.toList_append_eq String.toList_ofList
        String.toList_ofList) String.toList_ofList) String.toList_ofList
    rw [Workload.ofText?, Json.read, htext]
    decide +kernel
  have hhere : documents.canonical ⟨"w.json"⟩ = .ok ⟨"/w.json"⟩ := rfl
  obtain ⟨w, hw, hrun⟩ := Workload.exists_parse_of_any hhere rfl (by decide) hrun
  obtain ⟨hv, hrun⟩ := Bool.and_eq_true_iff.1 hrun
  cases hvalid : w.validate with
  | error e =>
    rw [hvalid] at hv
    cases hv
  | ok order =>
    obtain ⟨r, rest, hresources, hr, hrest⟩ := List.map_eq_cons_iff.1 (of_decide_eq_true hrun)
    obtain ⟨s, rfl, hs⟩ := List.map_eq_singleton_iff.1 hrest
    simp only [Prod.mk.injEq] at hr hs
    exact ⟨w, order, r, s, hw, hvalid, hresources, hr.1, hs.1, hr.2.1.trans hs.2.1.symm, hr.2.2.trans hs.2.2.symm⟩

/-- The two kinds are given one role and one definition. -/
theorem objects_are_not_told_apart : ∃ w order, Workload.parse documents ⟨"w.json"⟩ = .ok w ∧
    w.validate = .ok order ∧ ¬(w.resources.map (·.roleName)).Nodup ∧ ¬(w.resources.map w.definitionName).Nodup := by
  obtain ⟨w, order, r, s, hw, hv, hresources, hr, hs, hgroup, hplural⟩ := exists_accepted
  have hrole : r.roleName = s.roleName := Resource.roleName_inj.2 (by rw [hr, hs]; decide +kernel)
  have hdefinition : w.definitionName r = w.definitionName s := by
    rw [Workload.definitionName, Workload.definitionName, hplural, w.fullGroup_inj.2 hgroup]
  exact ⟨w, order, hw, hv, by simp [hresources, hrole], by simp [hresources, hdefinition]⟩

/-- One role is declared in the manifests of both kinds, and so they are apart in version. -/
theorem objects_are_told_apart_in_a_version_only : ∃ w order r s, Workload.parse documents ⟨"w.json"⟩ = .ok w ∧
    w.validate = .ok order ∧ w.resources = [r, s] ∧ r.version ≠ s.version ∧ ∀ b, ∃ text text',
      Registry.builtin.render ArtifactKind.manifests.template (.of w r b) = .ok text ∧
      Registry.builtin.render ArtifactKind.manifests.template (.of w s b) = .ok text' ∧
      Declares text "rbac.authorization.k8s.io/v1" "ClusterRole" r.roleName ∧
      Declares text' "rbac.authorization.k8s.io/v1" "ClusterRole" r.roleName := by
  obtain ⟨w, order, r, s, hw, hv, hresources, hrkind, hskind, hgroup, hplural⟩ := exists_accepted
  obtain ⟨htexts, -, hdefinitions, hshared⟩ := Workload.objects_are_told_apart_in_a_version hv
  have hr : r ∈ w.resources := by simp [hresources]
  have hs : s ∈ w.resources := by simp [hresources]
  obtain ⟨hrole, hdefinition⟩ := hshared r hr s hs
  refine ⟨w, order, r, s, hw, hv, hresources, fun hversion => ?_, fun b => ?_⟩
  · have hnodup := hdefinitions r.version
    simp [hresources, hversion, hdefinition.2 ⟨hgroup, hplural⟩] at hnodup
  · obtain ⟨text, htext, hdeclares, -⟩ := htexts r hr b
    obtain ⟨text', htext', hdeclares', -⟩ := htexts s hs b
    refine ⟨text, text', htext, htext', hdeclares, ?_⟩
    rw [hrole.2 (by rw [hrkind, hskind]; decide +kernel)]
    exact hdeclares'

end Twins

end OperatorScaffold

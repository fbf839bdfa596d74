import OperatorScaffold.Proofs.Graph.Agreement
import OperatorScaffold.Proofs.Template.Entries
import OperatorScaffold.Proofs.Template.Readiness
/-!
What a reader finds in the definition of a kind. Its names stand there as plain words, which are texts unless they are
read as something else.
-/

namespace OperatorScaffold

open Naming Template Text Yaml

namespace Document.Node

/-- The node behind a key of a record. -/
def member? (name : String) : Node → Option Node
  | .record _ entries => (entries.find? fun e => e.1.text? == some name).map (·.2)
  | _ => none

def item? (i : Nat) : Node → Option Node
  | .list _ _ items => items[i]?
  | _ => none

/-- The record has the text behind the key. -/
def Tells (n : Node) (name s : String) : Prop := (n.member? name).bind value? = some (.str s)

end Document.Node

namespace Yaml

variable {s name : String} {t : Tree} {entries : List (Tree × Tree)}

theorem value?_word : (word s).toNode.value? = some (.str s) ↔ Plain.resolve s = .text := by
  have hfree : (word s).toNode.value? = (Plain.resolve s).toValue? s >>= Value.scalarJson? := rfl
  rw [hfree]
  cases Plain.resolve s <;> simp [Plain.toValue?, Value.scalarJson?]

/-- A word is what is told behind its key if and only if it is a text. -/
theorem tells_iff (h : (Tree.record none entries).toNode.member? name = some (word s).toNode) :
    (Tree.record none entries).toNode.Tells name s ↔ Plain.resolve s = .text := by
  rw [Document.Node.Tells, h]
  exact value?_word

end Yaml

namespace Template

variable {c : Context} {entries : List (Tree × Tree)}

/-- The lines in front of the first document. -/
def titleLines (c : Context) : List String :=
  ["# Manifests for " ++ (c.resource.kind ++ ("." ++ (c.resource.fullGroup ++ "."))),
    "# Content between opforge marker lines survives regeneration; everything",
    "# else is rewritten from the workload specification."]

def roleLines (c : Context) : List String :=
  ["apiVersion: rbac.authorization.k8s.io/v1", "kind: ClusterRole", "metadata:",
    "  name: " ++ (c.resource.singular ++ "-editor-role"), "  labels:", "    # +opforge:static:begin:role-labels",
    "    app.kubernetes.io/managed-by: opforge", "    # +opforge:static:end:role-labels", "rules:",
    "  - apiGroups: [\"" ++ (c.resource.fullGroup ++ "\"]"),
    "    resources: [\"" ++ (c.resource.plural ++ ("\", \"" ++ (c.resource.plural ++ "/status\"]"))),
    "    verbs: [\"create\", \"delete\", \"get\", \"list\", \"patch\", \"update\", \"watch\"]",
    "  # +opforge:dynamic:begin:dependency-rules"] ++
  (c.dependencies.map ruleLine ++ ["  # +opforge:dynamic:end:dependency-rules"])

def nameLines (c : Context) : List String :=
  ["    kind: " ++ c.resource.kind] ++ (["    listKind: " ++ (c.resource.kind ++ "List")] ++
    (["    plural: " ++ c.resource.plural] ++ ["    singular: " ++ c.resource.singular]))

/-- The lines of a version behind its name. -/
def versionLines (c : Context) : List String :=
  ["      served: true"] ++ (["      storage: true"] ++ (["      subresources:", "        status: \x7b\x7d"] ++
    "      schema:" :: schemaLines c.fields))

def annotationLines : List String :=
  ["  annotations:", "    # +opforge:static:begin:crd-annotations", "    # +opforge:static:end:crd-annotations"]

def metadataLines (c : Context) : List String :=
  ["  name: " ++ (c.resource.plural ++ ("." ++ c.resource.fullGroup))] ++ annotationLines

def specLines (c : Context) : List String :=
  ["  group: " ++ c.resource.fullGroup] ++ ("  names:" :: nameLines c ++ (["  scope: " ++ c.resource.scope] ++
    "  versions:" :: ("    - name: " ++ c.resource.version) :: versionLines c))

def definitionLines (c : Context) : List String :=
  ["apiVersion: apiextensions.k8s.io/v1"] ++ (["kind: CustomResourceDefinition"] ++
    ("metadata:" :: metadataLines c ++ "spec:" :: specLines c))

theorem manifestLines_eq (c : Context) : manifestLines c =
    titleLines c ++ "---" :: (roleLines c ++ "---" :: (definitionLines c ++ c.markers.flatMap markerLines)) := by
  simp only [manifestLines, frameLines, titleLines, roleLines, definitionLines, metadataLines,
    annotationLines, specLines, nameLines, versionLines, List.append_assoc, List.cons_append, List.nil_append,
    String.append_assoc, toString_text]

def metadataEntries (c : Context) : List (Tree × Tree) :=
  [(word "name", word (c.resource.plural ++ ("." ++ c.resource.fullGroup))), (word "annotations", word "")]

def nameEntries (c : Context) : List (Tree × Tree) :=
  [(word "kind", word c.resource.kind), (word "listKind", word (c.resource.kind ++ "List")),
    (word "plural", word c.resource.plural), (word "singular", word c.resource.singular)]

def versionEntries (c : Context) (schema : Tree) : List (Tree × Tree) :=
  [(word "name", word c.resource.version), (word "served", word "true"), (word "storage", word "true"),
    (word "subresources", .record none [(word "status", .record none [])]),
    (word "schema", .record none [(word "openAPIV3Schema", schema)])]

def specEntries (c : Context) (schema : Tree) : List (Tree × Tree) :=
  [(word "group", word c.resource.fullGroup), (word "names", .record none (nameEntries c)),
    (word "scope", word c.resource.scope), (word "versions", .list none [.record none (versionEntries c schema)])]

/-- The entries of the definition of a kind. -/
def definitionEntries (c : Context) (schema : Tree) : List (Tree × Tree) :=
  [(word "apiVersion", word "apiextensions.k8s.io/v1"), (word "kind", word "CustomResourceDefinition"),
    (word "metadata", .record none (metadataEntries c)), (word "spec", .record none (specEntries c schema))]

/-- What a resource is called can stand in a line as it is. -/
structure Written (r : Identity) : Prop where
  kind : Ink r.kind.toList
  singular : Ink r.singular.toList
  plural : Ink r.plural.toList
  fullGroup : Ink r.fullGroup.toList
  version : Ink r.version.toList

theorem entriesAt_nameLines (h : Written c.resource) : EntriesAt 4 (nameLines c) (nameEntries c) := by
  have hlist : Ink (c.resource.kind ++ "List").toList := by
    rw [String.toList_append]
    exact h.kind.append (ink_fixed "List" (by decide))
  exact (EntriesAt.word "kind" (by decide) (isKey_fixed (by decide)) h.kind).append
    ((EntriesAt.word "listKind" (by decide) (isKey_fixed (by decide)) hlist).append
      ((EntriesAt.word "plural" (by decide) (isKey_fixed (by decide)) h.plural).append
        (.word "singular" (by decide) (isKey_fixed (by decide)) h.singular)))

theorem exists_openApi (fields : List Field) :
    ∃ properties, Schema.openApi fields = .obj [("properties", properties), ("type", .str "object")] := by
  have hsorted (p : Json) : Json.ofMembers [("type", .str "object"), ("properties", p)] =
      .obj [("properties", p), ("type", .str "object")] := by
    have hlt : "properties" < "type" := by decide
    simp [Json.ofMembers, Json.insertMember, hlt]
  exact ⟨_, hsorted _⟩

theorem entriesAt_schemaLines {fields : List Field} (hlined : (Schema.openApi fields).Lined) :
    EntriesAt 8 (schemaLines fields) [(word "openAPIV3Schema", (Schema.openApi fields).tree)] := by
  obtain ⟨properties, hschema⟩ := exists_openApi fields
  unfold schemaLines
  rw [hschema] at hlined ⊢
  exact .below "openAPIV3Schema" (by decide) (isKey_fixed (by decide))
    (.yamlBlock (List.cons_ne_nil _ _) hlined (by decide)) (by decide)

theorem entriesAt_versionLines (h : Written c.resource) (hlined : (Schema.openApi c.fields).Lined) :
    EntriesAt 6 (("      name: " ++ c.resource.version) :: versionLines c)
      (versionEntries c (Schema.openApi c.fields).tree) := by
  have hstatus : EntriesAt 8 ["        status: \x7b\x7d"] [(word "status", .record none [])] :=
    .braces "status" (by decide) (isKey_fixed (by decide))
  exact (EntriesAt.word "name" (by decide) (isKey_fixed (by decide)) h.version).append
    ((EntriesAt.fixed "served" "true" (by decide) (isKey_fixed (by decide)) (ink_fixed _ (by decide))).append
      ((EntriesAt.fixed "storage" "true" (by decide) (isKey_fixed (by decide)) (ink_fixed _ (by decide))).append
        ((EntriesAt.below "subresources" (by decide) (isKey_fixed (by decide)) hstatus (by decide)).append
          (.below "schema" (by decide) (isKey_fixed (by decide)) (entriesAt_schemaLines hlined) (by decide)))))

/-- Behind the key are comments only, which the annotations of a user can be put between. -/
theorem entriesAt_annotationLines : EntriesAt 2 annotationLines [(word "annotations", word "")] := by
  have hcomments : (joinLines annotationLines.tail).toList =
      List.replicate 4 ' ' ++ '#' :: " +opforge:static:begin:crd-annotations".toList ++
        ('\n' :: List.replicate 4 ' ' ++ '#' :: " +opforge:static:end:crd-annotations".toList) := by decide
  refine .missing "annotations" (by decide) (isKey_fixed (by decide)) (List.cons_ne_nil _ _) ?_ ?_ fun j => ?_
  · exact List.all_eq_true.1 (by decide +kernel)
  · exact undivided_joinLines (List.forall_mem_cons.2 ⟨undivided_fixed (by decide),
      List.forall_mem_singleton.2 (undivided_fixed (by decide))⟩)
  · have hend : Gap ('\n' :: List.replicate 4 ' ' ++ '#' :: " +opforge:static:end:crd-annotations".toList ++
        feed j) j :=
      .comment (List.all_eq_true.1 (by decide)) (.feed j)
    have hbegin : Gap ('\n' :: List.replicate 4 ' ' ++ '#' :: " +opforge:static:begin:crd-annotations".toList ++
        ('\n' :: List.replicate 4 ' ' ++ '#' :: " +opforge:static:end:crd-annotations".toList ++ feed j)) j :=
      .comment (List.all_eq_true.1 (by decide)) hend
    change Gap ('\n' :: (joinLines annotationLines.tail).toList ++ feed j) j
    rw [hcomments]
    simpa using hbegin

theorem entriesAt_metadataLines (h : Written c.resource) : EntriesAt 2 (metadataLines c) (metadataEntries c) := by
  have hname : Ink (c.resource.plural ++ ("." ++ c.resource.fullGroup)).toList := by
    rw [String.toList_append, String.toList_append]
    exact h.plural.append (.of_char (d := '.') (by simp) (by decide)
      (List.forall_mem_append.2 ⟨List.all_eq_true.1 (by decide), h.fullGroup.chars⟩))
  exact (EntriesAt.word "name" (by decide) (isKey_fixed (by decide)) hname).append entriesAt_annotationLines

theorem entriesAt_specLines (h : Written c.resource) (hlined : (Schema.openApi c.fields).Lined) :
    EntriesAt 2 (specLines c) (specEntries c (Schema.openApi c.fields).tree) := by
  have hscope : Ink c.resource.scope.toList := by
    unfold Identity.scope
    split <;> exact ink_fixed _ (by decide)
  have hversions : EntriesAt 2 ("  versions:" :: ("    - name: " ++ c.resource.version) :: versionLines c)
      [(word "versions", .list none [.record none (versionEntries c (Schema.openApi c.fields).tree)])] := by
    have hfirst : "      name: ".toList = List.replicate 6 ' ' ++ "name: ".toList := by decide
    have hdashed : "    - name: ".toList = List.replicate 4 ' ' ++ '-' :: ' ' :: "name: ".toList := by decide
    have hfeed : '\n' ∉ "name: ".toList ++ c.resource.version.toList :=
      List.not_mem_append (by decide) h.version.feed_not_mem
    refine .item "versions" (by decide) (isKey_fixed (by decide)) (entriesAt_versionLines h hlined)
      (by decide) ?_ ?_ hfeed
    · rw [String.toList_append, hfirst, List.append_assoc]
    · rw [String.toList_append, hdashed, List.append_assoc, List.cons_append, List.cons_append]
  exact (EntriesAt.word "group" (by decide) (isKey_fixed (by decide)) h.fullGroup).append
    ((EntriesAt.below "names" (by decide) (isKey_fixed (by decide)) (entriesAt_nameLines h) (by decide)).append
      ((EntriesAt.word "scope" (by decide) (isKey_fixed (by decide)) hscope).append hversions))

theorem entriesAt_definitionLines (h : Written c.resource) (hlined : (Schema.openApi c.fields).Lined) :
    EntriesAt 0 (definitionLines c) (definitionEntries c (Schema.openApi c.fields).tree) := by
  have hapi : Ink "apiextensions.k8s.io/v1".toList := ink_fixed _ (by decide)
  have hkind : Ink "CustomResourceDefinition".toList := ink_fixed _ (by decide)
  exact (EntriesAt.fixed "apiVersion" _ (by decide) (isKey_fixed (by decide)) hapi).append
    ((EntriesAt.fixed "kind" _ (by decide) (isKey_fixed (by decide)) hkind).append
      ((EntriesAt.below "metadata" (by decide) (isKey_fixed (by decide)) (entriesAt_metadataLines h) (by decide)).append
        (.below "spec" (by decide) (isKey_fixed (by decide)) (entriesAt_specLines h hlined) (by decide))))

theorem undivided_titleLines (h : Written c.resource) : Undivided (joinLines (titleLines c)).toList := by
  have htitle : OneLine (c.resource.kind ++ ("." ++ (c.resource.fullGroup ++ "."))) :=
    oneLine_append.2 ⟨h.kind.feed_not_mem, oneLine_append.2
      ⟨by decide, oneLine_append.2 ⟨h.fullGroup.feed_not_mem, by decide⟩⟩⟩
  exact undivided_joinLines (List.forall_mem_cons.2 ⟨undivided_line (by decide) htitle, List.forall_mem_cons.2
    ⟨undivided_fixed (by decide), List.forall_mem_singleton.2 (undivided_fixed (by decide))⟩⟩)

theorem undivided_roleLines (h : Written c.resource)
    (hd : ∀ a ∈ c.dependencies, OneLine a.fullGroup ∧ OneLine a.plural) :
    Undivided (joinLines (roleLines c)).toList := by
  have hsingular : OneLine (c.resource.singular ++ "-editor-role") :=
    oneLine_append.2 ⟨h.singular.feed_not_mem, by decide⟩
  have hgroup : OneLine (c.resource.fullGroup ++ "\"]") := oneLine_append.2 ⟨h.fullGroup.feed_not_mem, by decide⟩
  have hplural : OneLine (c.resource.plural ++ ("\", \"" ++ (c.resource.plural ++ "/status\"]"))) :=
    oneLine_append.2 ⟨h.plural.feed_not_mem, oneLine_append.2
      ⟨by decide, oneLine_append.2 ⟨h.plural.feed_not_mem, by decide⟩⟩⟩
  have hrules : ∀ l ∈ c.dependencies.map ruleLine, Undivided l.toList := by
    refine List.forall_mem_map.2 fun a ha => ?_
    obtain ⟨hfull, hplural⟩ := hd a ha
    unfold ruleLine
    simp only [String.append_assoc, toString_text]
    exact undivided_line (by decide) (oneLine_append.2 ⟨hfull, oneLine_append.2 ⟨by decide, oneLine_append.2
      ⟨hplural, by decide⟩⟩⟩)
  refine undivided_joinLines (List.forall_mem_append.2 ⟨?_, List.forall_mem_append.2 ⟨hrules, ?_⟩⟩)
  · iterate 3 refine List.forall_mem_cons.2 ⟨undivided_fixed (by decide), ?_⟩
    refine List.forall_mem_cons.2 ⟨undivided_line (by decide) hsingular, ?_⟩
    iterate 5 refine List.forall_mem_cons.2 ⟨undivided_fixed (by decide), ?_⟩
    refine List.forall_mem_cons.2
      ⟨undivided_line (by decide) hgroup, List.forall_mem_cons.2 ⟨undivided_line (by decide) hplural, ?_⟩⟩
    exact List.forall_mem_cons.2
      ⟨undivided_fixed (by decide), List.forall_mem_singleton.2 (undivided_fixed (by decide))⟩
  · exact List.forall_mem_singleton.2 (undivided_fixed (by decide))

theorem exists_markerLines {ms : List CustomMarker} (hne : ms ≠ []) :
    ∃ ls x, ms.flatMap markerLines = "---" :: ls ∧ ls ≠ [] ∧ x ∈ (joinLines ls).toList ∧ ¬isEndBlank x := by
  obtain ⟨m, ms, rfl⟩ := List.exists_cons_of_ne_nil hne
  obtain ⟨begins, ls, hms, hhash⟩ : ∃ begins ls, (m :: ms).flatMap markerLines = "---" :: begins :: ls ∧
      '#' ∈ begins.toList := by
    refine ⟨_, _, rfl, ?_⟩
    simp [toString_text]
  exact ⟨begins :: ls, '#', hms, List.cons_ne_nil _ _, mem_joinLines_cons hhash ls, by decide⟩

/-- What the file ends with is the definition, or the definition with regions behind it that are documents of their
own. -/
theorem exists_ending (ms : List CustomMarker) (hdefinition : EntriesAt 0 (definitionLines c) entries)
    (hend : EndsInk (joinLines (definitionLines c)).toList) : ∃ rest,
    (withOneNewline (joinLines (definitionLines c ++ ms.flatMap markerLines))).toList =
      (joinLines (definitionLines c)).toList ++ '\n' :: rest ∧ (rest = [] ∨ ∃ more, rest = separator ++ more) := by
  obtain rfl | hne := eq_or_ne ms []
  · exact ⟨[], by simpa using toList_withOneNewline hend hdefinition.shown, .inl rfl⟩
  · obtain ⟨ls, x, hms, hls, hx, hblank⟩ := exists_markerLines hne
    have hfeed : "\n---\n".toList = '\n' :: separator := by decide
    refine ⟨_, ?_, .inr ⟨(withOneNewline (joinLines ls)).toList, rfl⟩⟩
    rw [hms, joinLines_divided hdefinition.ne_nil hls, ← String.append_assoc, withOneNewline_append hx hblank,
      String.toList_append, String.toList_append, List.append_assoc, hfeed]
    rfl

theorem documents_manifestLines (htitle : Undivided (joinLines (titleLines c)).toList)
    (hrole : Undivided (joinLines (roleLines c)).toList) (hdefinition : EntriesAt 0 (definitionLines c) entries)
    (hend : EndsInk (joinLines (definitionLines c)).toList) :
    (documents (withOneNewline (joinLines (manifestLines c))))[2]? =
      some (.ofList ((joinLines (definitionLines c)).toList ++ ['\n'])) := by
  obtain ⟨rest, hrest, hmore⟩ := exists_ending c.markers hdefinition hend
  have htext : (withOneNewline (joinLines (manifestLines c))).toList = (joinLines (titleLines c)).toList ++ '\n' ::
      (separator ++ ((joinLines (roleLines c)).toList ++ '\n' :: (separator ++
        ((joinLines (definitionLines c)).toList ++ '\n' :: rest)))) := by
    have hfeed : "\n---\n".toList = '\n' :: separator := by decide
    have hchar : 'a' ∈ (joinLines (definitionLines c ++ c.markers.flatMap markerLines)).toList :=
      mem_joinLines_cons (by decide) _
    have htitles : titleLines c ≠ [] := List.cons_ne_nil _ _
    have hroles : roleLines c ≠ [] := List.cons_ne_nil _ _
    rw [manifestLines_eq, joinLines_divided htitles (List.append_ne_nil_of_left_ne_nil hroles _),
      joinLines_divided hroles (List.append_ne_nil_of_left_ne_nil hdefinition.ne_nil _), ← String.append_assoc,
      ← String.append_assoc, ← String.append_assoc, withOneNewline_append hchar (by decide)]
    simp only [String.toList_append, hrest, hfeed, List.append_assoc, List.cons_append]
  rw [← String.ofList_toList (s := withOneNewline (joinLines (manifestLines c))), htext, documents_cons htitle,
    documents_cons hrole]
  obtain rfl | ⟨more, rfl⟩ := hmore
  · rw [documents_last hdefinition.undivided]
    rfl
  · rw [documents_cons hdefinition.undivided]
    rfl

theorem endsInk_definitionLines (hlined : (Schema.openApi c.fields).Lined) :
    EndsInk (joinLines (definitionLines c)).toList := by
  have hlines : definitionLines c = (definitionLines c).dropLast ++
      [Schema.yamlBlock (Schema.openApi c.fields) 10] := rfl
  rw [hlines]
  refine endsInk_joinLines _ ?_
  obtain ⟨properties, hschema⟩ := exists_openApi c.fields
  rw [hschema] at hlined ⊢
  rw [Schema.toList_yamlBlock (List.cons_ne_nil _ _) hlined]
  have hkept : KeptAtEnd "object" := by decide
  have hlast : Json.lastTextOfMembers? [("properties", properties), ("type", .str "object")] = some "object" := rfl
  exact (endsInk_membersText (List.cons_ne_nil _ _) fun s hs => Option.some.inj (hlast.symm.trans hs) ▸ hkept).append _

/-- The third document of the manifests is the definition. -/
theorem read_definition (h : Written c.resource) (hd : ∀ a ∈ c.dependencies, OneLine a.fullGroup ∧ OneLine a.plural)
    (hlined : (Schema.openApi c.fields).Lined) (hdepth : (Schema.openApi c.fields).tree.depth ≤ 123) :
    ∃ document, (documents (withOneNewline (joinLines (manifestLines c))))[2]? = some document ∧
      Yaml.read document = some (Tree.record none (definitionEntries c (Schema.openApi c.fields).tree)).toNode := by
  have hentries := entriesAt_definitionLines h hlined
  refine ⟨_, documents_manifestLines (undivided_titleLines h) (undivided_roleLines h hd) hentries
    (endsInk_definitionLines hlined), ?_⟩
  rw [Yaml.read, hentries.readTree_eq String.toList_ofList]
  · rfl
  · simp [definitionEntries, metadataEntries, specEntries, nameEntries, versionEntries, word, Tree.aliases,
      Tree.aliasesOfEntries, Tree.aliasesOfItems, Json.aliases_tree]
  · simp only [definitionEntries, metadataEntries, specEntries, nameEntries, versionEntries, word, Tree.depth,
      Tree.depthOfEntries, Tree.depthOfItems]
    omega

end Template

namespace Workload

variable {w : Workload} {r : Resource} {order : List Resource}

theorem written_ofResource (hv : w.validate = .ok order) (hdomain : w.options.domain = none) (hr : r ∈ w.resources)
    (hgroup : r.group ≠ "-") (hplural : r.plural ≠ "-") : Written (.ofResource w r) := by
  have hw : r.WellShaped := ((decides_validate w).ok order hv .shapes).1 r hr
  have hfull : (Identity.ofResource w r).fullGroup = r.group := by rw [Identity.ofResource, fullGroup, hdomain]
  have hink : Ink (Identity.ofResource w r).fullGroup.toList := hfull ▸ hw.group.ink hgroup
  exact ⟨ink_kind hw.kind, ink_singular hw.kind, hw.plural.ink hplural, hink, ink_version hw.version⟩

/-- The words that are built around names are texts. -/
theorem resolve_listKind {kind : String} (h : UpperCamel kind) : Plain.resolve (kind ++ "List") = .text := by
  obtain ⟨c, cs, hs, hc⟩ := h.exists_cons
  refine (Plain.resolve_of_letter (by rw [String.toList_append, hs]; rfl) (.inl hc)).2 fun hm => ?_
  have hends : ∀ s ∈ Plain.reserved, s.toList.getLast? ≠ some 't' := by decide
  exact hends _ hm (by simp)

theorem resolve_version {version : String} (h : KubeVersion version) : Plain.resolve version = .text := by
  obtain ⟨c, cs, hs, hc⟩ := exists_cons_version h
  refine (Plain.resolve_of_letter hs (.inr hc)).2 fun hm => ?_
  have hstarts : ∀ s ∈ Plain.reserved, s.toList.head? ≠ some 'v' := by decide
  obtain ⟨major, more, -, -, hs⟩ := h
  exact hstarts _ hm (by rw [hs]; rfl)

/-- The third document is the definition. What is built around a name is told as a text, and a name that stands alone
is if and only if the word is no other value. -/
theorem definition_tells_what_is_text (hv : w.validate = .ok order) (hdomain : w.options.domain = none)
    (hr : r ∈ w.resources) (hgroup : r.group ≠ "-") (hplural : r.plural ≠ "-")
    (hlined : (Schema.openApi r.fields).Lined) (hdepth : (Schema.openApi r.fields).tree.depth ≤ 123)
    (boilerplate : String) :
    ∃ text document node spec names version,
      Registry.builtin.render ArtifactKind.manifests.template (.of w r boilerplate) = .ok text ∧
      (documents text)[2]? = some document ∧ Yaml.read document = some node ∧
      node.Tells "kind" "CustomResourceDefinition" ∧ node.member? "spec" = some spec ∧
      spec.member? "names" = some names ∧ (spec.member? "versions").bind (·.item? 0) = some version ∧
      names.Tells "listKind" (r.kind ++ "List") ∧ version.Tells "name" r.version ∧
      (names.Tells "kind" r.kind ↔ r.kind ∉ Plain.reserved) ∧
      (names.Tells "singular" (toLower r.kind) ↔ toLower r.kind ∉ Plain.reserved) ∧
      (names.Tells "plural" r.plural ↔ Plain.resolve r.plural = .text) ∧
      (spec.Tells "group" r.group ↔ Plain.resolve r.group = .text) := by
  have hw : r.WellShaped := ((decides_validate w).ok order hv .shapes).1 r hr
  have hfull : w.fullGroup r = r.group := by rw [fullGroup, hdomain]
  have hawaited : ∀ a ∈ (Context.of w r boilerplate).dependencies, OneLine a.fullGroup ∧ OneLine a.plural := by
    intro a ha
    obtain ⟨d, -, -, t, ht, rfl⟩ := mem_awaitedBy.1 ha
    have hshape : t.WellShaped := ((decides_validate w).ok order hv .shapes).1 t (mem_of_resource? ht).1
    have htarget : w.fullGroup t = t.group := by rw [fullGroup, hdomain]
    exact ⟨htarget ▸ hshape.group.oneLine, hshape.plural.oneLine⟩
  obtain ⟨document, hdocument, hread⟩ := read_definition (c := .of w r boilerplate)
    (written_ofResource hv hdomain hr hgroup hplural) hawaited hlined hdepth
  obtain ⟨c, cs, hkind, hc⟩ := hw.kind.exists_cons
  obtain ⟨d, ds, hsingular, hd⟩ := exists_cons_singular hw.kind
  have hdefinition : Plain.resolve "CustomResourceDefinition" = .text := by decide
  refine ⟨_, document, _, _, _, _, render_builtin .manifests _, hdocument, hread,
    (tells_iff rfl).2 hdefinition, rfl, rfl, rfl, (tells_iff rfl).2 (resolve_listKind hw.kind),
    (tells_iff rfl).2 (resolve_version hw.version),
    (tells_iff rfl).trans (Plain.resolve_of_letter hkind (.inl hc)),
    (tells_iff rfl).trans (Plain.resolve_of_letter hsingular (.inr hd)), tells_iff rfl, ?_⟩
  rw [← hfull]
  exact tells_iff rfl

end Workload

namespace Flag

def size : Field := ⟨"size", .int, some (.int 3), false, some "How wide it is,\nand how high.", []⟩

/-- A kind that is spelled as one of the words that are no texts. -/
def resource : Resource :=
  ⟨"flag", .standalone, "apps", "v1", "True", "trues", true, [size], [], [], none, false, "a.yaml"⟩

def workload : Workload := ⟨"w", "a.yaml", "r", ⟨"apps", "v1", none, true⟩, [resource], []⟩

theorem validate_workload : workload.validate = .ok [resource] := Workload.validate_of_singleton rfl (by decide)

theorem definition_does_not_tell_the_kind : workload.validate = .ok [resource] ∧ workload.options.domain = none ∧
    resource.group ≠ "-" ∧ resource.plural ≠ "-" ∧ (Schema.openApi resource.fields).Lined ∧
    (Schema.openApi resource.fields).tree.depth ≤ 123 ∧ ∃ text document node spec names,
      Registry.builtin.render ArtifactKind.manifests.template (.of workload resource "") = .ok text ∧
      (documents text)[2]? = some document ∧ Yaml.read document = some node ∧ node.member? "spec" = some spec ∧
      spec.member? "names" = some names ∧ spec.Tells "group" "apps" ∧ names.Tells "plural" "trues" ∧
      ¬names.Tells "kind" "True" ∧ ¬names.Tells "singular" "true" := by
  have hlined : (Schema.openApi resource.fields).Lined := by decide +kernel
  have hdepth : (Schema.openApi resource.fields).tree.depth ≤ 123 := by decide +kernel
  obtain ⟨text, document, node, spec, names, version, htext, hdocument, hread, -, hspec, hnames, -, -, -,
      hkind, hsingular, hplural, hgroup⟩ :=
    Workload.definition_tells_what_is_text validate_workload rfl List.mem_cons_self (by decide) (by decide) hlined
      hdepth ""
  have hlower : toLower resource.kind = "true" := by decide +kernel
  rw [hlower] at hsingular
  exact ⟨validate_workload, rfl, by decide, by decide, hlined, hdepth, text, document, node, spec, names,
    htext, hdocument, hread, hspec, hnames, hgroup.2 (by decide +kernel), hplural.2 (by decide +kernel),
    mt hkind.1 (by decide), mt hsingular.1 (by decide)⟩

end Flag

end OperatorScaffold

import OperatorScaffold.Proofs.Graph.Agreement
import OperatorScaffold.Proofs.Schema.Members
import OperatorScaffold.Proofs.Template.Line
import OperatorScaffold.Proofs.Template.Entries
/-!
What a reader finds in a sample. The values of the specification come through the lines that they are put in; only
empty lines at the end of the file are lost.
-/

namespace OperatorScaffold

open Naming Template Text Yaml

namespace Yaml

/-- The value is read back from what is written of it. -/
def ReadsBack (v : Json) : Prop := (Yaml.read (Value.ofJson v).render).bind Document.Node.value? = some v

variable {ms : List (String × Json)}

/-- A record that has its keys as words, and the values that stand behind them. -/
theorem value?_record {entries : List (Tree × Tree)}
    (h : List.Forall₂ (fun e m => e.1 = word m.1 ∧ e.2.toNode.value? = some m.2) entries ms) :
    (Tree.record none entries).toNode.value? = some (.ofMembers ms) := by
  have hmembers : Document.Node.members? (entriesOf entries) = some ms := by
    induction h with
    | nil => rfl
    | @cons e m entries ms he _ ih =>
      obtain ⟨key, value⟩ := e
      obtain ⟨rfl, hvalue⟩ := he
      rw [entriesOf, Document.Node.members?, hvalue, ih]
      rfl
  change (Document.Node.members? (entriesOf entries) >>= fun ms => some (Json.ofMembers ms)) = _
  rw [hmembers]
  rfl

/-- A value that is read back behind a key is no deeper than what is read, and its tree has it as value. -/
theorem ReadsBack.member {name : String} {v : Json} (h : ReadsBack (.obj [(name, v)]))
    (hv : (Json.obj [(name, v)]).Lined) : 1 + v.tree.depth ≤ 128 ∧ v.tree.toNode.value? = some v := by
  rw [ReadsBack, Yaml.read, readTree_render (List.cons_ne_nil _ _) hv] at h
  split at h
  next hdepth =>
    have hread : (Json.obj [(name, v)]).tree.toNode.value? = v.tree.toNode.value?.map fun x => .obj [(name, x)] := by
      cases hx : v.tree.toNode.value? <;>
        simp [Json.tree, Json.treesOfMembers, Tree.toNode, entriesOf, textTree, Document.Node.value?,
          Document.Node.members?, Document.Node.text?, scalarViews, isLocalTag, hx, Json.ofMembers, Json.insertMember]
    have hvalue : v.tree.toNode.value?.map (fun x => Json.obj [(name, x)]) = some (.obj [(name, v)]) := hread ▸ h
    obtain ⟨x, hx, he⟩ := Option.map_eq_some_iff.1 hvalue
    simp only [Json.obj.injEq, List.cons.injEq, Prod.mk.injEq, true_and, and_true] at he
    have hinner : (Json.obj [(name, v)]).tree.depth = 1 + v.tree.depth := by
      simp [Json.tree, Json.treesOfMembers, Tree.depth, Tree.depthOfEntries, textTree]
    exact ⟨hinner ▸ hdepth, he ▸ hx⟩
  next => cases h

end Yaml

namespace Template

variable {c : Context} {v : Json} {ms : List (String × Json)} {kind name api : String} {ls : List String}

theorem entriesAt_sampleSpecLines {fields : List Field} (h : (Schema.sample fields).Lined) :
    EntriesAt 0 (sampleSpecLines fields) [(word "spec", (Schema.sample fields).tree)] := by
  obtain ⟨ms, hms⟩ : ∃ ms, Schema.sample fields = .obj ms := ⟨_, rfl⟩
  have hkey : IsKey "spec" := isKey_fixed (by decide)
  unfold sampleSpecLines
  rw [hms] at h ⊢
  cases ms with
  | nil => exact .braces "spec" (by decide) hkey
  | cons m ms => exact .below "spec" (by decide) hkey (.yamlBlock (List.cons_ne_nil m ms) h (by decide)) (by decide)

theorem endsInk_sampleLines (hv : (Schema.sample c.fields).Lined)
    (h : ∀ s ∈ (Schema.sample c.fields).lastText?, KeptAtEnd s) : EndsInk (joinLines (sampleLines c)).toList := by
  have hlast : ∃ init last, sampleSpecLines c.fields = init ++ [last] ∧ EndsInk last.toList := by
    obtain ⟨ms, hms⟩ : ∃ ms, Schema.sample c.fields = .obj ms := ⟨_, rfl⟩
    unfold sampleSpecLines
    rw [hms] at hv h ⊢
    cases ms with
    | nil => exact ⟨[], _, rfl, ⟨"spec: \x7b".toList, '\x7d', by decide, by decide, by decide⟩⟩
    | cons m ms =>
      refine ⟨["spec:"], _, rfl, ?_⟩
      rw [Schema.toList_yamlBlock (List.cons_ne_nil m ms) hv]
      exact (endsInk_membersText (List.cons_ne_nil m ms) h).append _
  obtain ⟨init, last, hspec, hlast⟩ := hlast
  rw [sampleLines, hspec, ← List.append_assoc]
  exact endsInk_joinLines _ hlast

/-- The entries of a sample. -/
def sampleEntries (api kind name : String) (spec : Tree) : List (Tree × Tree) :=
  [(word "apiVersion", word api), (word "kind", word kind), (word "metadata", .record none [(word "name", word name)]),
    (word "spec", spec)]

theorem entriesAt_sampleLines (ha : Ink (c.resource.fullGroup ++ "/" ++ c.resource.version).toList)
    (hk : Ink c.resource.kind.toList) (hn : Ink (c.resource.singular ++ "-sample").toList)
    (hv : (Schema.sample c.fields).Lined) : EntriesAt 0 (sampleLines c)
      (sampleEntries (c.resource.fullGroup ++ "/" ++ c.resource.version) c.resource.kind
        (c.resource.singular ++ "-sample") (Schema.sample c.fields).tree) := by
  have hlines : sampleLines c = ["apiVersion: " ++ (c.resource.fullGroup ++ "/" ++ c.resource.version)] ++
      (["kind: " ++ c.resource.kind] ++ (["metadata:", "  name: " ++ (c.resource.singular ++ "-sample")] ++
        sampleSpecLines c.fields)) := by
    simp only [sampleLines, String.append_assoc, toString_text]
    rfl
  have hname : EntriesAt 2 ["  name: " ++ (c.resource.singular ++ "-sample")]
      [(word "name", word (c.resource.singular ++ "-sample"))] :=
    .word "name" (by decide) (isKey_fixed (by decide)) hn
  rw [hlines]
  exact (EntriesAt.word "apiVersion" (by decide) (isKey_fixed (by decide)) ha).append
    ((EntriesAt.word "kind" (by decide) (isKey_fixed (by decide)) hk).append
      ((EntriesAt.below "metadata" (by decide) (isKey_fixed (by decide)) hname (by decide)).append
        (entriesAt_sampleSpecLines hv)))

/-- The values of the four entries. -/
theorem value?_sampleEntries {t : Tree} (hapi : '/' ∈ api.toList) (hkind : Plain.int? kind = none)
    (hname : Plain.int? name = none) (ht : t.toNode.value? = some v) :
    ∃ j, (Tree.record none (sampleEntries api kind name t)).toNode.value? = some j ∧ j.get? "spec" = some v := by
  obtain ⟨ja, ha⟩ := exists_value_of_word (Plain.int?_of_slash hapi)
  obtain ⟨jk, hk⟩ := exists_value_of_word hkind
  obtain ⟨jn, hn⟩ := exists_value_of_word hname
  have hmetadata : (Tree.record none [(word "name", word name)]).toNode.value? = some (.ofMembers [("name", jn)]) :=
    value?_record (.cons ⟨rfl, hn⟩ .nil)
  have hrecord : (Tree.record none (sampleEntries api kind name t)).toNode.value? = some (.ofMembers
      [("apiVersion", ja), ("kind", jk), ("metadata", .ofMembers [("name", jn)]), ("spec", v)]) :=
    value?_record (.cons ⟨rfl, ha⟩ (.cons ⟨rfl, hk⟩ (.cons ⟨rfl, hmetadata⟩ (.cons ⟨rfl, ht⟩ .nil))))
  exact ⟨_, hrecord, (Json.get?_ofMembers (by simp)).2 (by simp)⟩

/-- What is read from a sample has the values of its specification. -/
theorem exists_read_sampleLines (ha : Ink (c.resource.fullGroup ++ "/" ++ c.resource.version).toList)
    (hk : Ink c.resource.kind.toList) (hn : Ink (c.resource.singular ++ "-sample").toList)
    (hkind : Plain.int? c.resource.kind = none) (hname : Plain.int? (c.resource.singular ++ "-sample") = none)
    (hback : ReadsBack (.obj [("spec", Schema.sample c.fields)])) (hv : (Schema.sample c.fields).Lined)
    (hend : ∀ s ∈ (Schema.sample c.fields).lastText?, KeptAtEnd s) :
    ∃ node j, Yaml.read (withOneNewline (joinLines (sampleLines c))) = some node ∧ node.value? = some j ∧
      j.get? "spec" = some (Schema.sample c.fields) := by
  have hlined : (Json.obj [("spec", Schema.sample c.fields)]).Lined := by
    refine List.forall_mem_cons.2 ⟨by decide, ?_⟩
    simpa [Json.textsOfMembers, Json.Lined] using hv
  obtain ⟨hdepth, hvalue⟩ := hback.member hlined
  have hslash : '/' ∈ (c.resource.fullGroup ++ "/" ++ c.resource.version).toList := by simp
  obtain ⟨j, hj, hget⟩ := value?_sampleEntries hslash hkind hname hvalue
  have hentries := entriesAt_sampleLines ha hk hn hv
  have htree := hentries.readTree_eq (toList_withOneNewline (endsInk_sampleLines hv hend) hentries.shown)
    (by simp [sampleEntries, word, Tree.aliases, Tree.aliasesOfEntries, Json.aliases_tree])
    (by simp only [sampleEntries, word, Tree.depth, Tree.depthOfEntries]; omega)
  exact ⟨_, j, by rw [Yaml.read, htree]; rfl, hj, hget⟩

end Template

namespace Workload

variable {w : Workload} {r : Resource} {order : List Resource}

/-- A sample is read, and its specification has the values of the fields: the value comes through the lines of the file
if it is read back at all, its lines end with line feeds only, and it does not end with empty lines. -/
theorem sample_is_read (hv : w.validate = .ok order) (hdomain : w.options.domain = none) (hr : r ∈ w.resources)
    (hback : ReadsBack (.obj [("spec", Schema.sample r.fields)])) (hlined : (Schema.sample r.fields).Lined)
    (hend : ∀ s ∈ (Schema.sample r.fields).lastText?, KeptAtEnd s) (boilerplate : String) :
    ∃ text node j, Registry.builtin.render ArtifactKind.sample.template (.of w r boilerplate) = .ok text ∧
      Yaml.read text = some node ∧ node.value? = some j ∧ j.get? "spec" = some (Schema.sample r.fields) := by
  have hw : r.WellShaped := ((decides_validate w).ok order hv .shapes).1 r hr
  have hfull : w.fullGroup r = r.group := by rw [fullGroup, hdomain]
  have ha : Ink (w.fullGroup r ++ "/" ++ r.version).toList := by
    have hgroup : ∀ c ∈ r.group.toList, isInkChar c := fun c hc => isInkChar_of_lower (hw.group.2 c hc)
    have hslash : ∀ c ∈ "/".toList, isInkChar c := List.all_eq_true.1 (by decide)
    rw [hfull, String.toList_append, String.toList_append]
    exact .of_char (d := '/') (by simp) (by decide)
      (List.forall_mem_append.2 ⟨List.forall_mem_append.2 ⟨hgroup, hslash⟩, (ink_version hw.version).chars⟩)
  have hn : Ink (r.singular ++ "-sample").toList := by
    rw [String.toList_append]
    exact (ink_singular hw.kind).append (ink_fixed "-sample" (by decide))
  obtain ⟨c, cs, hkind, hc⟩ := hw.kind.exists_cons
  obtain ⟨d, ds, hname, hd⟩ := exists_cons_singular hw.kind
  have hkind : Plain.int? r.kind = none := Plain.int?_of_letter hkind (.inl hc)
  have hname : Plain.int? (r.singular ++ "-sample") = none :=
    Plain.int?_of_letter (by rw [String.toList_append, Resource.singular, hname]; rfl) (.inr hd)
  obtain ⟨node, j, hread, hvalue, hget⟩ := exists_read_sampleLines (c := .of w r boilerplate) ha (ink_kind hw.kind) hn
    hkind hname hback hlined hend
  exact ⟨_, node, j, render_builtin .sample _, hread, hvalue, hget⟩

end Workload

namespace Board

def size : Field := ⟨"size", .int, some (.int 3), false, none, []⟩

def text : Field := ⟨"text", .string, some (.str "Closed\n\n  today: yes\n"), false, none, []⟩

def resource : Resource :=
  ⟨"board", .standalone, "apps", "v1", "Board", "boards", true, [size, text], [], [], none, false, "a.yaml"⟩

def workload : Workload := ⟨"w", "a.yaml", "r", ⟨"apps", "v1", none, true⟩, [resource], []⟩

theorem validate_workload : workload.validate = .ok [resource] := Workload.validate_of_singleton rfl (by decide)

theorem readsBack_sample : ReadsBack (.obj [("spec", Schema.sample resource.fields)]) := by
  have hlined : (Json.obj [("spec", Schema.sample resource.fields)]).Lined := by decide +kernel
  rw [ReadsBack, Yaml.read, readTree_render (List.cons_ne_nil _ _) hlined, if_pos (by decide)]
  rfl

/-- The text at the end is written line by line, and one line feed at its end is kept. -/
theorem sample_is_read_with_a_text_of_lines : workload.validate = .ok [resource] ∧ workload.options.domain = none ∧
    ReadsBack (.obj [("spec", Schema.sample resource.fields)]) ∧ (Schema.sample resource.fields).Lined ∧
    (∀ s ∈ (Schema.sample resource.fields).lastText?, KeptAtEnd s) ∧ ∃ text node j,
      Registry.builtin.render ArtifactKind.sample.template (.of workload resource "") = .ok text ∧
      Yaml.read text = some node ∧ node.value? = some j ∧
      j.get? "spec" = some (.obj [("size", .int 3), ("text", .str "Closed\n\n  today: yes\n")]) := by
  have hlined : (Schema.sample resource.fields).Lined := by decide +kernel
  have hkept : KeptAtEnd "Closed\n\n  today: yes\n" := by decide +kernel
  have hend : ∀ s ∈ (Schema.sample resource.fields).lastText?, KeptAtEnd s := fun s hs => Option.some.inj hs ▸ hkept
  exact ⟨validate_workload, rfl, readsBack_sample, hlined, hend,
    Workload.sample_is_read validate_workload rfl List.mem_cons_self readsBack_sample hlined hend ""⟩

end Board

end OperatorScaffold

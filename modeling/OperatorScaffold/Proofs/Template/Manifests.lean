import OperatorScaffold.Proofs.Marker.Account
import OperatorScaffold.Proofs.Template.Quiet
import OperatorScaffold.Template.Manifests
/-!
The lines of the YAML files. No marker line is among those of a sample, and the manifests give the
regions that the template has and those of the declared markers.
-/

namespace OperatorScaffold.Template

open Marker Text Naming

variable {c : Context} {a : Awaited} {m : CustomMarker} {fs : List Field} {seen more : List String}
  {rs : List Account}

theorem unmarked_sampleSpecLines (h : ∀ g : Field, g.Inside fs → g.Quiet) :
    ∀ l ∈ sampleSpecLines fs, Unmarked l.toList := by
  unfold sampleSpecLines
  dsimp only
  split
  · exact List.forall_mem_singleton.2 (unmarked_fixed rfl)
  · refine List.forall_mem_cons.2 ⟨unmarked_fixed rfl, List.forall_mem_singleton.2 ?_⟩
    exact Schema.unmarked_yamlBlock (Schema.quiet_sample h) 2

theorem unmarked_sampleLines (h : c.Quiet) : ∀ l ∈ sampleLines c, Unmarked l.toList := by
  have hgroup : Unmarked ("apiVersion: " ++ (c.resource.fullGroup ++ ("/" ++ c.resource.version))).toList := by
    have hfull : Unmarked ("apiVersion: " ++ c.resource.fullGroup).toList :=
      unmarked_free h.resource.fullGroup rfl
    rw [← String.append_assoc]
    exact hfull.append_version h.resource.version
  simp only [sampleLines, List.forall_mem_append, List.forall_mem_cons, String.append_assoc, toString_text]
  refine ⟨⟨hgroup, unmarked_line h.resource.kind.oneLine rfl, unmarked_fixed rfl, unmarked_line ?_ rfl,
    nofun⟩, unmarked_sampleSpecLines h.fields⟩
  exact oneLine_append.2 ⟨h.resource.oneLine_singular, oneLine_fixed rfl⟩

theorem unmarked_ruleLine (h : a.Quiet) : Unmarked (ruleLine a).toList := by
  unfold ruleLine
  simp only [String.append_assoc, toString_text]
  refine unmarked_around (guarded_fixed rfl) h.fullGroup ?_ rfl
  exact oneLine_append.2 ⟨h.plural, oneLine_fixed rfl⟩

/-- What is told of the region of a declared marker: its default loses the blanks at its end, and ends
with a line feed if anything is left of it. -/
def account (m : CustomMarker) : Account :=
  (m.name, m.scope, if trimEnd m.default = "" then "" else trimEnd m.default ++ "\n")

theorem delimiter?_of_head {scope : Marker.Scope} {side : Side} {name s : String} (h : isName name)
    (hs : s.toList = '#' :: ' ' :: (Delimiter.head scope side ++ name.toList)) :
    delimiter? s = some ⟨scope, side, name⟩ := by
  have hsays : Delimiter.Says ⟨scope, side, name⟩ s.toList [] ['#'] [' '] [] :=
    ⟨by simpa using hs, .inr rfl, nofun, List.forall_mem_singleton.2 (by decide), nofun, h⟩
  rw [← hsays.delimiter?_eq, String.ofList_toList]

theorem oneLine_name {name : String} (h : isName name) : OneLine name := fun hfeed =>
  absurd (isNameChar_of_isName h _ hfeed) (by decide)

theorem toList_opening (scope : Marker.Scope) :
    ("# +opforge:" ++ scope.name ++ ":begin:").toList = '#' :: ' ' :: Delimiter.head scope .opening := by
  cases scope <;> decide

theorem toList_closing (scope : Marker.Scope) :
    ("# +opforge:" ++ scope.name ++ ":end:").toList = '#' :: ' ' :: Delimiter.head scope .closing := by
  cases scope <;> decide

theorem reads_markerLines (hm : isName m.name) (hd : Unmarked m.default.toList) (hn : m.name ∉ seen)
    (h : Reads (m.name :: seen) more rs) : Reads seen (markerLines m ++ more) (account m :: rs) := by
  have hname := oneLine_name hm
  have hscope : OneLine m.scope.name := by cases m.scope <;> exact oneLine_fixed rfl
  have hopen : delimiter? ("# +opforge:" ++ m.scope.name ++ ":begin:" ++ m.name) =
      some ⟨m.scope, .opening, m.name⟩ := by
    refine delimiter?_of_head hm ?_
    rw [String.toList_append, toList_opening]
    rfl
  have hclose : delimiter? ("# +opforge:" ++ m.scope.name ++ ":end:" ++ m.name) =
      some ⟨m.scope, .closing, m.name⟩ := by
    refine delimiter?_of_head hm ?_
    rw [String.toList_append, toList_closing]
    rfl
  have hol : OneLine ("# +opforge:" ++ m.scope.name ++ ":begin:" ++ m.name) := by
    simp only [oneLine_append, hname, hscope, and_true]
    exact ⟨oneLine_fixed rfl, oneLine_fixed rfl⟩
  have hcl : OneLine ("# +opforge:" ++ m.scope.name ++ ":end:" ++ m.name) := by
    simp only [oneLine_append, hname, hscope, and_true]
    exact ⟨oneLine_fixed rfl, oneLine_fixed rfl⟩
  have hbody : ∀ s ∈ (if trimEnd m.default = "" then [] else [trimEnd m.default]), Unmarked s.toList :=
    unmarked_unless hd.trimEnd
  have hrule : Unmarked "---".toList := unmarked_fixed rfl
  have hregion := (Reads.region hopen hol hbody hclose hcl hn rfl h).line hrule
  have haccount : account m = (m.name, m.scope,
      String.join ((if trimEnd m.default = "" then [] else [trimEnd m.default]).map (· ++ "\n"))) := by
    unfold account
    split <;> simp
  rw [haccount]
  unfold markerLines
  simpa only [List.append_assoc, List.cons_append, List.nil_append, toString_text] using hregion

theorem reads_markers {ms : List CustomMarker} (hms : ∀ m ∈ ms, isName m.name ∧ Unmarked m.default.toList)
    (hn : (seen ++ ms.map (·.name)).Nodup) : Reads seen (ms.flatMap markerLines) (ms.map account) := by
  induction ms generalizing seen with
  | nil => exact .nil
  | cons m ms ih =>
    have ⟨hm, hms⟩ := List.forall_mem_cons.1 hms
    rw [List.map_cons] at hn
    have hnew : m.name ∉ seen := fun hmem => List.disjoint_of_nodup_append hn hmem List.mem_cons_self
    exact reads_markerLines hm.1 hm.2 hnew (ih hms (List.perm_middle.nodup_iff.1 hn))

/-- What is told of the regions of the template itself. -/
def generatedAccounts (c : Context) : List Account :=
  [("role-labels", .static, "    app.kubernetes.io/managed-by: opforge\n"),
   ("dependency-rules", .dynamic, String.join ((c.dependencies.map ruleLine).map (· ++ "\n"))),
   ("crd-annotations", .static, "")]

theorem reads_frameLines (h : c.Quiet) (hmore : Reads generatedMarkers.reverse more rs) :
    Reads [] (frameLines c ++ more) (generatedAccounts c ++ rs) := by
  have hkind := h.resource.kind.oneLine
  have hplural := h.resource.plural
  have hversion := h.resource.version.oneLine
  have hfull := h.resource.fullGroup
  have hsingular := h.resource.oneLine_singular
  have hscope := Identity.oneLine_scope c.resource
  have htitle : Unmarked ("# Manifests for " ++ c.resource.kind ++ "." ++ c.resource.fullGroup ++ ".").toList := by
    have hstart : Guarded "# Manifests for " := guarded_fixed rfl
    exact (((hstart.append hkind).append (oneLine_fixed rfl)).append_unmarked hfull).append_dot
  have hname : Unmarked ("  name: " ++ c.resource.plural ++ "." ++ c.resource.fullGroup).toList := by
    have hstart : Guarded "  name: " := guarded_fixed rfl
    exact ((hstart.append hplural).append (oneLine_fixed rfl)).append_unmarked hfull
  have hgroup : Unmarked ("  - apiGroups: [\"" ++ c.resource.fullGroup ++ "\"]").toList :=
    ((unmarked_free hfull rfl).stop rfl).unmarked
  have hresources : OneLine (c.resource.plural ++ ("\", \"" ++ (c.resource.plural ++ "/status\"]"))) := by
    simp only [oneLine_append, hplural, true_and]
    exact ⟨oneLine_fixed rfl, oneLine_fixed rfl⟩
  have hrole : OneLine (c.resource.singular ++ "-editor-role") := oneLine_append.2 ⟨hsingular, oneLine_fixed rfl⟩
  have hlist : OneLine (c.resource.kind ++ "List") := oneLine_append.2 ⟨hkind, oneLine_fixed rfl⟩
  have hrules : ∀ s ∈ c.dependencies.map ruleLine, Unmarked s.toList :=
    List.forall_mem_map.2 fun a ha => unmarked_ruleLine (h.dependencies a ha)
  have hlabels : ∀ s ∈ ["    app.kubernetes.io/managed-by: opforge"], Unmarked s.toList :=
    List.forall_mem_singleton.2 (unmarked_fixed rfl)
  have haccounts : generatedAccounts c ++ rs =
      ("role-labels", .static, String.join (["    app.kubernetes.io/managed-by: opforge"].map (· ++ "\n"))) ::
      ("dependency-rules", .dynamic, String.join ((c.dependencies.map ruleLine).map (· ++ "\n"))) ::
      ("crd-annotations", .static, String.join ([].map (· ++ "\n"))) :: rs := rfl
  have hannotations : ∀ s ∈ ([] : List String), Unmarked s.toList := List.forall_mem_nil _
  rw [haccounts]
  unfold frameLines
  dsimp only
  simp only [List.append_assoc, List.cons_append, List.nil_append, toString_text]
  simp only [String.append_assoc] at htitle hname hgroup ⊢
  refine .line htitle ?_
  iterate 6 refine .line (unmarked_fixed rfl) ?_
  refine .line (unmarked_line hrole rfl) (.line (unmarked_fixed rfl) ?_)
  refine .region (by decide) (oneLine_fixed rfl) hlabels (by decide) (oneLine_fixed rfl) (by decide) rfl ?_
  refine .line (unmarked_fixed rfl) (.line hgroup ?_)
  refine .line (unmarked_line hresources rfl) (.line (unmarked_fixed rfl) ?_)
  refine .region (by decide) (oneLine_fixed rfl) hrules (by decide) (oneLine_fixed rfl) (by decide) rfl ?_
  iterate 4 refine .line (unmarked_fixed rfl) ?_
  refine .line hname (.line (unmarked_fixed rfl) ?_)
  refine .region (by decide) (oneLine_fixed rfl) hannotations (by decide) (oneLine_fixed rfl) (by decide) rfl ?_
  refine .line (unmarked_fixed rfl) (.line (unmarked_free hfull rfl) (.line (unmarked_fixed rfl) ?_))
  refine .line (unmarked_line hkind rfl) (.line (unmarked_line hlist rfl) (.line (unmarked_line hplural rfl) ?_))
  refine .line (unmarked_line hsingular rfl) (.line (unmarked_line hscope rfl) ?_)
  refine .line (unmarked_fixed rfl) (.line (unmarked_line hversion rfl) ?_)
  iterate 5 refine .line (unmarked_fixed rfl) ?_
  exact hmore

end OperatorScaffold.Template

import OperatorScaffold.Proofs.Graph.Agreement
import OperatorScaffold.Proofs.Project.Reload
/-!
What recording keeps of the metadata that it finds. At the top every entry that means nothing here stays
as it is; of the entry of a resource what is read is kept, and nothing else.
-/

namespace OperatorScaffold

open scoped List
open Document
open Yaml (Tree Value)

/-- The value is a record with this entry. -/
def Yaml.Value.Has (v : Value) (key : String) (x : Value) : Prop := ∃ es, v = .record es ∧ (.str key, x) ∈ es

theorem Json.lookup_member {α : Type} {name key : String} {v : α} {ms : List (String × α)} :
    ((name, v) :: ms).lookup key = if key = name then some v else ms.lookup key := by
  rw [List.lookup_cons]
  by_cases h : key = name
  · simp [h]
  · simp [h, beq_false_of_ne h]

theorem Json.lookup_insertMember {α : Type} {name key : String} {v : α} {ms : List (String × α)} :
    (insertMember name v ms).lookup key = if key = name then some v else ms.lookup key := by
  fun_induction insertMember name v ms with
  | case1 => exact lookup_member
  | case2 => exact lookup_member
  | case3 x ms => by_cases h : key = name <;> simp [lookup_member, h]
  | case4 n x ms hlt hne ih =>
    rw [lookup_member, lookup_member, ih]
    by_cases h : key = n
    · rw [h, if_pos rfl, if_neg (Ne.symm hne), if_pos rfl]
    · rw [if_neg h, if_neg h]

namespace Document.Entries

variable {α : Type} {es : Entries} {name : String} {read : Node → Option α} {n : Node} {a : α} {r : Option α}

theorem optional_eq_some (h : es.optional name read = some r) (hn : es.lookup name = some n) (hp : ¬n.isAbsent) :
    ∃ a, read n = some a ∧ r = some a := by
  rw [optional, hn] at h
  dsimp only at h
  rw [if_neg hp] at h
  obtain ⟨a, ha, h⟩ := Option.bind_eq_some_iff.1 h
  exact ⟨a, ha, (Option.some.inj h).symm⟩

theorem required_eq_some (h : es.required name read = some a) (hn : es.lookup name = some n) : read n = some a := by
  rwa [required, hn] at h

theorem orElse_eq_some {default : α} (h : es.orElse name default read = some a) (hn : es.lookup name = some n) :
    read n = some a := by
  rwa [orElse, hn] at h

end Document.Entries

/-- What a node says under one of the keys that are asked for. -/
def Document.Node.said? (n : Node) (keys : List String) (key : String) : Option Node :=
  n.someFields? keys >>= List.lookup key

namespace ProjectResource

def apiKeys : List String := ["crdVersion", "namespaced"]

def entryKeys : List String := ["api", "controller", "domain", "group", "kind", "path", "plural", "version"]

structure KeepsApi (n : Node) (v : Value) : Prop where
  crdVersion : ∀ x s, n.said? apiKeys "crdVersion" = some x → x.text? = some s → v.Has "crdVersion" (.str s)
  namespaced : ∀ x b, n.said? apiKeys "namespaced" = some x → x.bool? = some b → v.Has "namespaced" (.bool b)

/-- The value has what the entry of a resource says under the keys that are known. -/
structure Keeps (n : Node) (v : Value) : Prop where
  texts : ∀ key ∈ ["domain", "group", "kind", "path", "plural", "version"], ∀ x s,
    n.said? entryKeys key = some x → ¬x.isAbsent → x.text? = some s → v.Has key (.str s)
  controller : ∀ x, n.said? entryKeys "controller" = some x → x.bool? = some true →
    v.Has "controller" (.bool true)
  api : ∀ x, n.said? entryKeys "api" = some x → ¬x.isAbsent → ∃ a, v.Has "api" a ∧ KeepsApi x a

theorem keepsApi_of_apiOfNode? {n : Node} {a : ProjectApi} (h : apiOfNode? n = some a) : KeepsApi n a.toValue := by
  obtain ⟨es, hes, h⟩ := Option.bind_eq_some_iff.1 h
  obtain ⟨version, hversion, h⟩ := Option.bind_eq_some_iff.1 h
  obtain ⟨namespaced, hnamespaced, h⟩ := Option.bind_eq_some_iff.1 h
  obtain rfl := Option.some.inj h
  have hsaid (key : String) : n.said? apiKeys key = es.lookup key := by
    rw [Node.said?, apiKeys, hes]
    rfl
  constructor
  · intro x s hx hs
    rw [hsaid] at hx
    obtain rfl := Option.some.inj (hs.symm.trans (Entries.required_eq_some hversion hx))
    exact ⟨_, rfl, .head _⟩
  · intro x b hx hb
    rw [hsaid] at hx
    obtain rfl := Option.some.inj (hb.symm.trans (Entries.orElse_eq_some hnamespaced hx))
    exact ⟨_, rfl, .tail _ (.head _)⟩

theorem keeps_of_resourceOfNode? {n : Node} {e : ProjectResource} (h : resourceOfNode? n = some e) :
    Keeps n e.toValue := by
  obtain ⟨es, hes, h⟩ := Option.bind_eq_some_iff.1 h
  obtain ⟨api, hapi, h⟩ := Option.bind_eq_some_iff.1 h
  obtain ⟨controller, hcontroller, h⟩ := Option.bind_eq_some_iff.1 h
  obtain ⟨domain, hdomain, h⟩ := Option.bind_eq_some_iff.1 h
  obtain ⟨group, hgroup, h⟩ := Option.bind_eq_some_iff.1 h
  obtain ⟨kind, hkind, h⟩ := Option.bind_eq_some_iff.1 h
  obtain ⟨path, hpath, h⟩ := Option.bind_eq_some_iff.1 h
  obtain ⟨plural, hplural, h⟩ := Option.bind_eq_some_iff.1 h
  obtain ⟨version, hversion, h⟩ := Option.bind_eq_some_iff.1 h
  obtain rfl := Option.some.inj h
  have hsaid (key : String) : n.said? entryKeys key = es.lookup key := by
    rw [Node.said?, entryKeys, hes]
    rfl
  refine ⟨fun key hkey x s hx hp hs => ⟨_, rfl, ?_⟩, fun x hx hb => ⟨_, rfl, ?_⟩, fun x hx hp => ?_⟩
  · rw [hsaid] at hx
    have hoptional {key : String} {o : Option String} (h : es.optional key Node.text? = some o)
        (hx : es.lookup key = some x) : o = some s := by
      obtain ⟨a, ha, rfl⟩ := Entries.optional_eq_some h hx hp
      rw [← Option.some.inj (hs.symm.trans ha)]
    have hrequired {key a : String} (h : es.required key Node.text? = some a)
        (hx : es.lookup key = some x) : a = s :=
      Option.some.inj ((Entries.required_eq_some h hx).symm.trans hs)
    simp only [List.mem_cons, List.not_mem_nil, or_false] at hkey
    obtain rfl | rfl | rfl | rfl | rfl | rfl := hkey
    · simp [hoptional hdomain hx, optionalText, optionalEntry]
    · simp [hrequired hgroup hx]
    · simp [hrequired hkind hx]
    · simp [hoptional hpath hx, optionalText, optionalEntry]
    · simp [hoptional hplural hx, optionalText, optionalEntry]
    · simp [hrequired hversion hx]
  · rw [hsaid] at hx
    obtain rfl := Option.some.inj (hb.symm.trans (Entries.orElse_eq_some hcontroller hx))
    simp [optionalEntry]
  · rw [hsaid] at hx
    obtain ⟨a, ha, rfl⟩ := Entries.optional_eq_some hapi hx hp
    exact ⟨a.toValue, ⟨_, rfl, by simp [optionalEntry]⟩, keepsApi_of_apiOfNode? ha⟩

end ProjectResource

namespace ProjectFile

theorem forall₂_of_mapM {α β : Type} {f : α → Option β} {l : List α} {bs : List β} (h : l.mapM f = some bs) :
    List.Forall₂ (fun a b => f a = some b) l bs := by
  induction l generalizing bs with
  | nil =>
    obtain rfl := Option.some.inj h
    exact .nil
  | cons a l ih =>
    rw [List.mapM_cons] at h
    obtain ⟨b, hb, h⟩ := Option.bind_eq_some_iff.1 h
    obtain ⟨bs, hbs, h⟩ := Option.bind_eq_some_iff.1 h
    obtain rfl := Option.some.inj h
    exact .cons hb (ih hbs)

section Table

variable {keepTags : Bool} {es : List (String × Tree)} {pairs acc table : List (String × Value)} {key : String}
  {v : Tree}

theorem lookup_foldl_insertMember :
    (pairs.foldl (fun acc e => Json.insertMember e.1 e.2 acc) acc).lookup key =
      (pairs.reverse.lookup key).or (acc.lookup key) := by
  induction pairs generalizing acc with
  | nil => rfl
  | cons e pairs ih =>
    rw [List.foldl_cons, ih, Json.lookup_insertMember, List.reverse_cons, List.lookup_append, Option.or_assoc]
    congr 1
    rw [show [e].lookup key = _ from Json.lookup_member]
    split <;> rfl

theorem lookup_of_forall₂ (h : List.Forall₂ (fun e p => p.1 = e.1 ∧ e.2.toValue? keepTags = some p.2) es pairs)
    (hv : es.lookup key = some v) : ∃ x, v.toValue? keepTags = some x ∧ pairs.lookup key = some x := by
  induction h with
  | nil => cases hv
  | @cons e p es pairs hep _ ih =>
    obtain ⟨name, w⟩ := e
    obtain ⟨_, x⟩ := p
    obtain ⟨rfl, hx⟩ := hep
    rw [Json.lookup_member] at hv ⊢
    split at hv
    next hkey =>
      obtain rfl := Option.some.inj hv
      exact ⟨x, hx, if_pos hkey⟩
    next hkey =>
      obtain ⟨y, hy, hp⟩ := ih hv
      exact ⟨y, hy, (if_neg hkey).trans hp⟩

theorem lookup_filter {P : String → Bool} (h : P key) (es : List (String × Tree)) :
    (es.filter fun e => P e.1).lookup key = es.lookup key := by
  induction es with
  | nil => rfl
  | cons e es ih =>
    rw [List.filter_cons, Json.lookup_member]
    split
    next => rw [Json.lookup_member, ih]
    next hP =>
      have hne : key ≠ e.1 := fun he => hP (he ▸ h)
      rw [ih, if_neg hne]

/-- Of the entries with one key the last is in the table. -/
theorem lookup_of_table? (h : table? keepTags es = some table) (hv : es.reverse.lookup key = some v) :
    ∃ x, v.toValue? keepTags = some x ∧ table.lookup key = some x := by
  obtain ⟨pairs, hpairs, h⟩ := Option.bind_eq_some_iff.1 h
  obtain rfl := Option.some.inj h
  have hread : List.Forall₂ (fun e p => p.1 = e.1 ∧ e.2.toValue? keepTags = some p.2) es pairs := by
    refine (forall₂_of_mapM hpairs).imp fun e p he => ?_
    obtain ⟨x, hx, he⟩ := Option.bind_eq_some_iff.1 he
    obtain rfl := Option.some.inj he
    exact ⟨rfl, hx⟩
  obtain ⟨x, hx, hp⟩ := lookup_of_forall₂ (List.forall₂_reverse_iff.2 hread) hv
  refine ⟨x, hx, ?_⟩
  rw [lookup_foldl_insertMember, hp]
  rfl

end Table

/-- The entries of the resources in a document. -/
def resourceNodes (all : List (String × Tree)) : List Node :=
  ((all.lookup "resources").bind (·.toNode.items?)).getD []

theorem lookup_map_toNode (all : List (String × Tree)) (key : String) :
    (all.map fun e => (e.1, e.2.toNode)).lookup key = (all.lookup key).map Tree.toNode := by
  induction all with
  | nil => rfl
  | cons e all ih =>
    rw [List.map_cons, Json.lookup_member, Json.lookup_member, ih]
    split <;> rfl

theorem of_listing {all : List (String × Tree)} {rs : List ProjectResource}
    (h : Entries.listing (all.map fun e => (e.1, e.2.toNode)) "resources" resourceOfNode? = some rs) :
    (resourceNodes all).mapM resourceOfNode? = some rs := by
  rw [Entries.listing, lookup_map_toNode] at h
  unfold resourceNodes
  cases hall : all.lookup "resources" with
  | none =>
    rw [hall] at h
    exact h
  | some t =>
    rw [hall] at h
    obtain ⟨ns, hns, h⟩ := Option.bind_eq_some_iff.1 h
    rwa [Option.bind_some, hns]

theorem ofTree?_eq_some {t : Tree} {p : ProjectFile} (h : ofTree? t = some p) : ∃ all, entries? t = some all ∧
    (resourceNodes all).mapM resourceOfNode? = some p.resources ∧
    table? false (all.filter fun e => !known.contains e.1) = some p.extra := by
  obtain ⟨all, hall, h⟩ := Option.bind_eq_some_iff.1 h
  refine ⟨all, hall, ?_⟩
  dsimp only at h
  split at h
  next => cases h
  next =>
    obtain ⟨domain, -, h⟩ := Option.bind_eq_some_iff.1 h
    obtain ⟨layout, -, h⟩ := Option.bind_eq_some_iff.1 h
    split at h
    all_goals
      obtain ⟨plugins, -, h⟩ := Option.bind_eq_some_iff.1 h
      obtain ⟨name, -, h⟩ := Option.bind_eq_some_iff.1 h
      obtain ⟨repo, -, h⟩ := Option.bind_eq_some_iff.1 h
      obtain ⟨resources, hresources, h⟩ := Option.bind_eq_some_iff.1 h
      obtain ⟨version, -, h⟩ := Option.bind_eq_some_iff.1 h
      obtain ⟨extra, hextra, h⟩ := Option.bind_eq_some_iff.1 h
      obtain rfl := Option.some.inj h
      exact ⟨of_listing hresources, hextra⟩

variable {s s' : Workspace} {root : Path} {w : Workload} {order : List Resource} {controllers : Bool}
  {p : ProjectFile} {outcome : WriteOutcome} {configPath : String}

theorem document_of_loadSupported (h : loadSupported s root = .ok (some p)) : ∃ text t,
    s.readText (path root) = .ok text ∧ Yaml.readTree text = some t ∧ ofTree? t = some p := by
  obtain ⟨text, htext, hread⟩ := load_eq_some_iff.1 (loadSupported_eq_ok_iff.1 h).1
  obtain ⟨t, ht, hp⟩ := Option.bind_eq_some_iff.1 hread
  exact ⟨text, t, htext, ht, hp⟩

theorem extra_record : (p.record w order controllers configPath).extra = p.extra := by
  rw [record_eq, foldl_upsert_eq]
  rfl

theorem lookup_plugins_record {key : String} (h : key ≠ pluginKey) :
    (p.record w order controllers configPath).plugins.lookup key = p.plugins.lookup key := by
  rw [record_eq, foldl_upsert_eq]
  exact Json.lookup_insertMember.trans (if_neg h)

theorem layout_prefix_record : p.layout <+: (p.record w order controllers configPath).layout := by
  rw [record_eq, foldl_upsert_eq]
  change p.layout <+: if p.layout.contains pluginKey then p.layout else p.layout ++ [pluginKey]
  split
  · exact List.prefix_rfl
  · exact List.prefix_append _ _

theorem has_toValue {key : String} {x : Value} (h : p.extra.lookup key = some x) : p.toValue.Has key x := by
  obtain ⟨_, _, he, -⟩ := List.lookup_eq_some_iff.1 h
  have hmem : (Value.str key, x) ∈ tableValue p.extra := by
    refine List.mem_map.2 ⟨(key, x), ?_, rfl⟩
    rw [he]
    exact List.mem_append_right _ List.mem_cons_self
  exact ⟨_, rfl, List.mem_append_right _ hmem⟩

/-- Recording a workload keeps what the metadata says at the top under keys that are not known, the
entries of other resources as far as they are read, and the plugins and layouts of others. -/
theorem recording_keeps_the_rest (hv : w.validate = .ok order) (hload : loadSupported s root = .ok (some p))
    (h : recordResources root w order controllers s = (.ok outcome, s')) :
    ∃ (text : String) (t : Tree) (all : List (String × Tree)) (q : ProjectFile),
      s.readText (path root) = .ok text ∧ Yaml.readTree text = some t ∧ entries? t = some all ∧
      (s' = s ∨ Workspace.writeText (path root) q.render s = (.ok (), s')) ∧
      (∀ key ∉ known, ∀ v, all.reverse.lookup key = some v →
        ∃ x, v.toValue? false = some x ∧ q.toValue.Has key x) ∧
      List.Forall₂ (fun n e => resourceOfNode? n = some e ∧ ProjectResource.Keeps n e.toValue)
        (resourceNodes all) p.resources ∧
      q.toValue.Has "resources" (.list (q.resources.map (·.toValue))) ∧
      q.resources.filter (·.gvk ∉ w.resources.map (·.gvk)) ~
        p.resources.filter (·.gvk ∉ w.resources.map (·.gvk)) ∧
      (∀ r ∈ w.resources, lookup? q.resources r.gvk = some { resourceEntry w controllers r with
        controller := controls p.resources r.gvk || controllers }) ∧
      (∀ key ≠ pluginKey, q.plugins.lookup key = p.plugins.lookup key) ∧ p.layout <+: q.layout := by
  obtain ⟨text, t, htext, ht, hp⟩ := document_of_loadSupported hload
  obtain ⟨all, hall, hresources, hextra⟩ := ofTree?_eq_some hp
  have hperm := Workload.perm_of_validate hv
  have hgvks : ((order.map (resourceEntry w controllers)).map (·.gvk)).Nodup := by
    rw [List.map_map]
    exact ((hperm.map Resource.gvk).nodup_iff).2 ((decides_validate w).ok _ hv .gvks)
  refine ⟨text, t, all, p.record w order controllers (ProjectFile.configPath s root w.source), htext, ht, hall, ?_,
    fun key hkey v hv => ?_, ?_, ?_, ?_, fun r hr => ?_, fun key => lookup_plugins_record, layout_prefix_record⟩
  · cases recordResources_eq_iff.1 h with
    | same => exact .inl rfl
    | written hload' hwritten hwrite =>
      obtain rfl := eq_record_of_written? hload' hwritten
      obtain rfl := Except.ok.inj (hload.symm.trans hload')
      exact .inr hwrite
  · have hunknown : (!known.contains key) = true := by simpa using hkey
    have hv : (all.filter fun e => !known.contains e.1).reverse.lookup key = some v := by
      rw [← List.filter_reverse, lookup_filter (P := fun k => !known.contains k) hunknown, hv]
    obtain ⟨x, hx, hlookup⟩ := lookup_of_table? hextra hv
    exact ⟨x, hx, has_toValue (by rwa [extra_record])⟩
  · exact (forall₂_of_mapM hresources).imp fun n e he => ⟨he, ProjectResource.keeps_of_resourceOfNode? he⟩
  · exact ⟨_, rfl, by simp⟩
  · rw [record_eq]
    refine perm_filter_foldl_upsert (fun a b hab => by simp only [hab]) fun e he => ?_
    obtain ⟨r, hr, rfl⟩ := List.mem_map.1 he
    simpa using ⟨r, hperm.mem_iff.1 hr, rfl⟩
  · rw [record_eq]
    exact lookup?_foldl_upsert hgvks (List.mem_map_of_mem (hperm.mem_iff.2 hr))

end ProjectFile

namespace Gate

def resource : Resource :=
  ⟨"gate", .standalone, "net", "v1", "Gate", "gates", true, [], [], [], none, false, "/w.yaml"⟩

def workload : Workload := ⟨"gate", "/w.yaml", "r", ⟨"net", "v1", none, true⟩, [resource], []⟩

/-- Metadata with an entry of another tool and a resource that is not of the workload. -/
def metadata : String :=
  "cliVersion: 4.1.0\nrepo: r\nresources:\n- controller: true\n  group: web\n  kind: Page\n  path: r/api/v1\n  version: v1\n"

def space : Workspace := ⟨⟨[(["out", "PROJECT"], .file (.text metadata) 0o644), (["out"], .directory)]⟩, [], []⟩

/-- The page is read, and the version of the other tool stands in the document. -/
def isRead (existing : Except ScaffoldError (Option ProjectFile)) : Bool :=
  match existing with
  | .ok (some p) => p.resources.any fun e => e.gvk = ⟨"web", "v1", "Page"⟩ ∧ e.path = some "r/api/v1"
  | _ => false

theorem recording_keeps_the_rest_of_another_tool :
    ∃ (outcome : WriteOutcome) (s' : Workspace) (q : ProjectFile),
      recordResources ⟨"out"⟩ workload [resource] true space = (.ok outcome, s') ∧
      (s' = space ∨ Workspace.writeText (ProjectFile.path ⟨"out"⟩) q.render space = (.ok (), s')) ∧
      (∃ x, q.toValue.Has "cliVersion" x) ∧
      ∃ e ∈ q.resources, e.gvk = ⟨"web", "v1", "Page"⟩ ∧ e.path = some "r/api/v1" := by
  have hread : isRead (ProjectFile.loadSupported space ⟨"out"⟩) := by decide +kernel
  have hversion : ((Yaml.readTree metadata).bind ProjectFile.entries?).any fun all =>
      (all.reverse.lookup "cliVersion").isSome := by decide +kernel
  have hrun : (recordResources ⟨"out"⟩ workload [resource] true space).1.toBool := by decide +kernel
  have hvalid : workload.validate = .ok [resource] := rfl
  unfold isRead at hread
  split at hread
  next p hload =>
    obtain ⟨e, he, hpage⟩ := List.any_eq_true.1 hread
    obtain ⟨hgvk, hpath⟩ := of_decide_eq_true hpage
    generalize hrecord : recordResources ⟨"out"⟩ workload [resource] true space = run at hrun
    obtain ⟨result, s'⟩ := run
    cases result with
    | error _ => cases hrun
    | ok outcome =>
      obtain ⟨text, t, all, q, htext, ht, hall, hwrite, htop, -, -, hkept, -⟩ :=
        ProjectFile.recording_keeps_the_rest hvalid hload hrecord
      obtain rfl : metadata = text := Except.ok.inj htext
      refine ⟨outcome, s', q, rfl, hwrite, ?_, e, ?_, hgvk, hpath⟩
      · rw [ht, Option.bind_some, hall, Option.any_some, Option.isSome_iff_exists] at hversion
        obtain ⟨v, hv⟩ := hversion
        obtain ⟨x, -, hx⟩ := htop "cliVersion" (by decide) v hv
        exact ⟨x, hx⟩
      · have hmem : e ∈ p.resources.filter (·.gvk ∉ workload.resources.map (·.gvk)) :=
          List.mem_filter.2 ⟨he, by rw [hgvk]; decide⟩
        exact (List.mem_filter.1 (hkept.mem_iff.2 hmem)).1
  next => cases hread

end Gate

end OperatorScaffold

import Mathlib.Data.List.Forall2
import OperatorScaffold.Proofs.Failure
import OperatorScaffold.Workload.Build
/-!
Workloads that come from documents. Each has the resource that its document itself declares, and all
its resources are described by documents; a document that names no companions is all there is to it.
-/

namespace OperatorScaffold.Workload

variable {w : Workload} {space : Workspace} {path here : Path} {text : String} {d : Declaration}

theorem gather_ne_nil {options : WorkloadOptions} {kind : WorkloadKind} {parent : Option Lineage}
    {d : LinkedDocument} {rs : List Resource} {ds : List PendingDependency}
    (h : gather options kind parent d = .ok (rs, ds)) : rs ≠ [] := by
  obtain ⟨doc, d, companions⟩ := d
  rw [gather] at h
  obtain ⟨_, -, h⟩ := bind_eq_ok.1 h
  obtain ⟨_, -, h⟩ := bind_eq_ok.1 h
  cases h
  exact List.cons_ne_nil _ _

/-- A document describes the resource, whose companions are told elsewhere, and what it waits for. -/
def Described (options : WorkloadOptions) (r : Resource) (ds : List PendingDependency) : Prop :=
  ∃ kind parent doc d r' companions,
    describe options kind parent doc d = .ok (r', ds) ∧ r = { r' with companions }

mutual

/-- Every resource is described by a document, with dependencies that are among those of the whole. -/
theorem described_of_gather : ∀ {options : WorkloadOptions} {kind : WorkloadKind}
    {parent : Option Lineage} {d : LinkedDocument} {rs : List Resource} {ds : List PendingDependency},
    gather options kind parent d = .ok (rs, ds) →
    ∃ dss, List.Forall₂ (Described options) rs dss ∧ dss.flatten = ds
  | options, kind, parent, ⟨doc, d, companions⟩, rs, ds, h => by
    rw [gather] at h
    obtain ⟨⟨r, own⟩, hr, h⟩ := bind_eq_ok.1 h
    obtain ⟨⟨names, rs', more⟩, hmore, h⟩ := bind_eq_ok.1 h
    cases h
    obtain ⟨dss, hdss, rfl⟩ := described_of_gatherCompanions hmore
    exact ⟨own :: dss, .cons ⟨_, _, _, _, r, _, hr, rfl⟩ hdss, rfl⟩

theorem described_of_gatherCompanions : ∀ {options : WorkloadOptions} {parent : Lineage}
    {cs : List LinkedDocument} {names : List String} {rs : List Resource} {ds : List PendingDependency},
    gatherCompanions options parent cs = .ok (names, rs, ds) →
    ∃ dss, List.Forall₂ (Described options) rs dss ∧ dss.flatten = ds
  | options, parent, [], names, rs, ds, h => by
    rw [gatherCompanions] at h
    cases h
    exact ⟨[], .nil, rfl⟩
  | options, parent, c :: cs, names, rs, ds, h => by
    rw [gatherCompanions] at h
    obtain ⟨kind, -, h⟩ := bind_eq_ok.1 h
    obtain ⟨-, h⟩ := guard_eq_ok.1 h
    obtain ⟨name, -, h⟩ := bind_eq_ok.1 h
    obtain ⟨⟨first, own⟩, hfirst, h⟩ := bind_eq_ok.1 h
    obtain ⟨⟨names', rest, more⟩, hrest, h⟩ := bind_eq_ok.1 h
    cases h
    obtain ⟨dss, hdss, rfl⟩ := described_of_gather hfirst
    obtain ⟨dss', hdss', rfl⟩ := described_of_gatherCompanions hrest
    exact ⟨dss ++ dss', List.rel_append hdss hdss', List.flatten_append⟩

end

/-- What a document gives is gathered from it and its companions. -/
theorem gathered_of_parse (h : parse space path = .ok w) : ∃ kind root ds,
    gather w.options kind none root = .ok (w.resources, ds) ∧
      w.dependencies = ds.map (PendingDependency.settle w.resources) := by
  obtain ⟨root, -, h⟩ := bind_eq_ok.1 h
  obtain ⟨kind, -, h⟩ := bind_eq_ok.1 h
  obtain ⟨-, h⟩ := guard_eq_ok.1 h
  obtain ⟨-, h⟩ := guard_eq_ok.1 h
  obtain ⟨name, -, h⟩ := bind_eq_ok.1 h
  obtain ⟨spec, -, h⟩ := bind_eq_ok.1 h
  obtain ⟨repository, -, h⟩ := bind_eq_ok.1 h
  obtain ⟨api, -, h⟩ := bind_eq_ok.1 h
  obtain ⟨group, -, h⟩ := bind_eq_ok.1 h
  obtain ⟨version, -, h⟩ := bind_eq_ok.1 h
  obtain ⟨⟨resources, dependencies⟩, hgather, h⟩ := bind_eq_ok.1 h
  cases h
  exact ⟨kind, root, dependencies, hgather, rfl⟩

theorem resources_ne_nil_of_parse (h : parse space path = .ok w) : w.resources ≠ [] := by
  obtain ⟨kind, root, ds, hgather, -⟩ := gathered_of_parse h
  exact gather_ne_nil hgather

theorem described_of_mem (h : parse space path = .ok w) {r : Resource} (hr : r ∈ w.resources) :
    ∃ ds, Described w.options r ds := by
  obtain ⟨kind, root, ds, hgather, -⟩ := gathered_of_parse h
  obtain ⟨dss, hdss, -⟩ := described_of_gather hgather
  obtain ⟨i, hi, rfl⟩ := List.mem_iff_getElem.1 hr
  exact ⟨_, (List.forall₂_iff_get.1 hdss).2 i hi (hdss.length_eq ▸ hi)⟩

theorem forall_mem_of_readAll {α β : Type} {read : Nat → α → Except ParseError β} {P : β → Prop}
    (hread : ∀ i a b, read i a = .ok b → P b) {as : List α} {bs : List β} {i : Nat}
    (h : readAll read i as = .ok bs) : ∀ b ∈ bs, P b := by
  induction as generalizing i bs with
  | nil =>
    cases h
    exact nofun
  | cons a as ih =>
    obtain ⟨b, hb, h⟩ := bind_eq_ok.1 h
    obtain ⟨bs, hbs, h⟩ := bind_eq_ok.1 h
    cases h
    exact List.forall_mem_cons.2 ⟨hread i a b hb, ih hbs⟩

/-- Where the parts of a resource and its dependencies are read. -/
theorem Described.read {options : WorkloadOptions} {r : Resource} {ds : List PendingDependency}
    (h : Described options r ds) : ∃ doc name, ∃ spec : SpecDeclaration,
      Field.ofDeclarations doc "spec.fields" [] spec.fields = .ok r.fields ∧
      readAll (CustomMarker.ofDeclaration doc) 0 spec.markers = .ok r.markers ∧
      readAll (PendingDependency.ofDeclaration doc name) 0 spec.dependencies = .ok ds := by
  obtain ⟨kind, parent, doc, d, r', companions, h, rfl⟩ := h
  unfold describe at h
  obtain ⟨spec, -, h⟩ := bind_eq_ok.1 h
  obtain ⟨-, h⟩ := guard_eq_ok.1 h
  obtain ⟨name, -, h⟩ := bind_eq_ok.1 h
  obtain ⟨api, -, h⟩ := bind_eq_ok.1 h
  obtain ⟨apiKind, -, h⟩ := bind_eq_ok.1 h
  obtain ⟨fields, hfields, h⟩ := bind_eq_ok.1 h
  obtain ⟨markers, hmarkers, h⟩ := bind_eq_ok.1 h
  obtain ⟨dependencies, hdependencies, h⟩ := bind_eq_ok.1 h
  cases h
  exact ⟨doc, name, spec, hfields, hmarkers, hdependencies⟩

theorem isName_of_mem_markers (h : parse space path = .ok w) {r : Resource} (hr : r ∈ w.resources) :
    ∀ m ∈ r.markers, Marker.isName m.name := by
  obtain ⟨ds, hd⟩ := described_of_mem h hr
  obtain ⟨doc, name, spec, -, hmarkers, -⟩ := hd.read
  refine forall_mem_of_readAll (fun i ⟨_, scope, default⟩ m hm => ?_) hmarkers
  obtain ⟨name, -, hm⟩ := bind_eq_ok.1 hm
  have hnamed {scope : Marker.Scope} {e : ParseError} (h : (if !Marker.isName name then
      (throw e : Except ParseError PUnit) >>= fun _ => pure ⟨name, scope, default.getD ""⟩
      else pure ⟨name, scope, default.getD ""⟩) = .ok m) : Marker.isName m.name := by
    obtain ⟨hname, h⟩ := guard_eq_ok.1 h
    cases h
    simpa using hname
  cases scope with
  | none => exact hnamed hm
  | some s =>
    dsimp only at hm
    cases hs : Marker.Scope.ofName? s with
    | none =>
      simp only [hs] at hm
      cases hm
    | some scope =>
      simp only [hs] at hm
      exact hnamed hm

/-- A dependency is one that a resource declares, settled. -/
theorem settled_of_mem (h : parse space path = .ok w) {d : Dependency} (hd : d ∈ w.dependencies) :
    ∃ r ds, Described w.options r ds ∧ ∃ p ∈ ds, p.settle w.resources = d := by
  obtain ⟨kind, root, ds, hgather, hsettled⟩ := gathered_of_parse h
  obtain ⟨dss, hdss, rfl⟩ := described_of_gather hgather
  obtain ⟨p, hp, rfl⟩ := List.mem_map.1 (hsettled ▸ hd)
  obtain ⟨ds, hds, hp⟩ := List.mem_flatten.1 hp
  obtain ⟨i, hi, rfl⟩ := List.mem_iff_getElem.1 hds
  exact ⟨_, _, (List.forall₂_iff_get.1 hdss).2 i (hdss.length_eq ▸ hi) hi, p, hp, rfl⟩

/-- The predicate of a dependency is the one declared, or the one that the kind of a resource gives. -/
theorem readiness_of_parse (h : parse space path = .ok w) {d : Dependency} (hd : d ∈ w.dependencies)
    (ht : d.target ∈ w.resources.map (·.name)) :
    Naming.isUpperCamel d.readiness ∨ ∃ r ∈ w.resources, d.readiness = builtinPredicate r.kind := by
  obtain ⟨_, ds, hdescribed, p, hp, rfl⟩ := settled_of_mem h hd
  obtain ⟨doc, name, spec, -, -, hds⟩ := hdescribed.read
  have hdeclared : ∀ p ∈ ds, ∀ s, p.readiness = some s → Naming.isUpperCamel s := by
    refine forall_mem_of_readAll (fun i d p hp s hs => ?_) hds
    obtain ⟨target, -, hp⟩ := bind_eq_ok.1 hp
    split at hp
    next =>
      cases hp
      cases hs
    next =>
      obtain ⟨hs', hp⟩ := guard_eq_ok.1 hp
      cases hp
      cases hs
      simpa using hs'
  cases hr : p.readiness with
  | some s => exact .inl (by simpa [PendingDependency.settle, hr] using hdeclared p hp s hr)
  | none =>
    have hsome : (w.resources.find? (·.name = p.target)).isSome := by
      obtain ⟨r, hr, hn⟩ := List.mem_map.1 ht
      exact List.find?_isSome.2 ⟨r, hr, decide_eq_true hn⟩
    obtain ⟨r, hfind⟩ := Option.isSome_iff_exists.1 hsome
    refine .inr ⟨r, List.mem_of_find?_eq_some hfind, ?_⟩
    simp [PendingDependency.settle, hr, hfind]

theorem readDocument_of_json {document : WorkloadDocument} (ht : space.readText here = .ok text)
    (hj : ¬isYaml here) (hd : Json.read text >>= WorkloadDocument.ofNode? = some document) :
    readDocument space here = .ok document := by
  unfold readDocument
  refine bind_eq_ok.2 ⟨text, mapError_eq_ok.2 ht, ?_⟩
  rw [if_neg hj, hd]
  rfl

theorem loadDocument_eq_iff {r : Except ParseError LinkedDocument} :
    loadDocument space path = r ↔ loadFile space path [] = some (r, []) := by
  obtain ⟨r', h⟩ := exists_loadFile_eq space [] path
  simp [loadDocument, h]

mutual

/-- The companions of a document, if at no depth it names files. -/
def inlined? (label : String) : WorkloadDocument → Option (List LinkedDocument)
  | ⟨_, [], inline⟩ => inlinedFrom? label 0 inline
  | _ => none

def inlinedFrom? (label : String) (i : Nat) : List WorkloadDocument → Option (List LinkedDocument)
  | [] => some []
  | d :: ds => do
    let inlineLabel := s!"{label}#components[{i}]"
    let companions ← inlined? inlineLabel d
    return ⟨inlineLabel, d.declaration, companions⟩ :: (← inlinedFrom? label (i + 1) ds)

end

section Inlined

variable {load : Path → Loader LinkedDocument} {stack : List Path} (declaredIn : Path)

mutual

theorem settles_of_inlined? (label : String) : (d : WorkloadDocument) → {cs : List LinkedDocument} →
    inlined? label d = some cs → Settles (loadCompanions load declaredIn label d) stack (· = .ok cs)
  | ⟨_, files, inline⟩, cs, h => by
    cases files with
    | nil =>
      rw [inlined?] at h
      rw [loadCompanions, List.mapM_nil, pure_bind]
      refine (settles_of_inlinedFrom? label 0 inline h).bind (fun _ hok => .pure ?_) nofun
      rw [Except.ok.inj hok, List.nil_append]
    | cons => cases h

theorem settles_of_inlinedFrom? (label : String) (i : Nat) : (ds : List WorkloadDocument) →
    {cs : List LinkedDocument} → inlinedFrom? label i ds = some cs →
    Settles (loadInline load declaredIn label i ds) stack (· = .ok cs)
  | [], cs, h => by
    rw [inlinedFrom?] at h
    rw [loadInline]
    exact .pure (congrArg _ (Option.some.inj h))
  | d :: ds, cs, h => by
    rw [inlinedFrom?] at h
    obtain ⟨companions, hd, h⟩ := Option.bind_eq_some_iff.1 h
    obtain ⟨rest, hds, h⟩ := Option.bind_eq_some_iff.1 h
    obtain rfl := Option.some.inj h
    rw [loadInline]
    refine (settles_of_inlined? _ d hd).bind (fun _ hok =>
      (settles_of_inlinedFrom? label (i + 1) ds hds).bind (fun _ hok' => .pure ?_) nofun) nofun
    rw [Except.ok.inj hok, Except.ok.inj hok']

end

end Inlined

/-- A document that names no files is loaded with what is written inside it. -/
theorem loadDocument_of_inlined? {document : WorkloadDocument} {cs : List LinkedDocument}
    (hc : space.canonical path = .ok here) (hd : readDocument space here = .ok document)
    (h : inlined? here.text document = some cs) :
    loadDocument space path = .ok ⟨here.text, document.declaration, cs⟩ := by
  rw [loadDocument_eq_iff, loadFile_eq hc, if_neg List.not_mem_nil, hd]
  dsimp only
  have hcs : Settles (loadCompanions (loadFile space) here here.text document) [here] (· = .ok cs) :=
    settles_of_inlined? here here.text document h
  obtain ⟨_, hcs, rfl⟩ := hcs
  rw [List.nil_append, hcs]
  rfl

/-- The characters of a text that is put together are told piece by piece. -/
theorem toList_append_eq {s t : String} {cs ds : List Char} (hs : s.toList = cs) (ht : t.toList = ds) :
    (s ++ t).toList = cs ++ ds := by
  rw [String.toList_append, hs, ht]

/-- What a document in JSON gives, if it names no files; `label` says where it stands. -/
def ofText? (label text : String) : Option (Except ParseError Workload) := do
  let document ← Json.read text >>= WorkloadDocument.ofNode?
  return build ⟨label, document.declaration, ← inlined? label document⟩

theorem parse_of_ofText? {r : Except ParseError Workload} (hc : space.canonical path = .ok here)
    (ht : space.readText here = .ok text) (hj : ¬isYaml here) (h : ofText? here.text text = some r) :
    parse space path = r := by
  obtain ⟨document, hd, h⟩ := Option.bind_eq_some_iff.1 h
  obtain ⟨cs, hcs, h⟩ := Option.bind_eq_some_iff.1 h
  rw [parse, loadDocument_of_inlined? hc (readDocument_of_json ht hj hd) hcs]
  exact Option.some.inj h

/-- What the text of a document gives passes a test, and so does the model that is parsed. -/
theorem exists_parse_of_any {test : Workload → Bool} (hc : space.canonical path = .ok here)
    (ht : space.readText here = .ok text) (hj : ¬isYaml here)
    (h : ((ofText? here.text text).bind Except.toOption).any test) :
    ∃ w, parse space path = .ok w ∧ test w := by
  obtain ⟨w, hw, htest⟩ := (Option.any_eq_true _ _).1 h
  obtain ⟨r, hr, hok⟩ := Option.bind_eq_some_iff.1 hw
  obtain rfl := toOption_eq_some.1 hok
  exact ⟨w, parse_of_ofText? hc ht hj hr, htest⟩

end OperatorScaffold.Workload

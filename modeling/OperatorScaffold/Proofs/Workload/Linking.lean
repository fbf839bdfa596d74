import Mathlib.Data.List.Forall2
import Mathlib.Data.String.Basic
import OperatorScaffold.Proofs.Failure
import OperatorScaffold.Workload.Build
/-!
What a tree of documents gives: one resource for each document, told from the document itself and
those it is declared in, and the dependencies that the documents declare.
-/

namespace OperatorScaffold

open Text

/-- A document of a tree with those it is declared in, the nearest first. -/
structure Site where
  document : LinkedDocument
  above : List LinkedDocument

namespace LinkedDocument

mutual

/-- The documents of a tree, each before those it declares. -/
def sites (above : List LinkedDocument) : LinkedDocument → List Site
  | ⟨label, declaration, companions⟩ =>
    ⟨⟨label, declaration, companions⟩, above⟩ ::
      sitesOfAll (⟨label, declaration, companions⟩ :: above) companions

def sitesOfAll (above : List LinkedDocument) : List LinkedDocument → List Site
  | [] => []
  | c :: cs => sites above c ++ sitesOfAll above cs

end

theorem sitesOfAll_eq (above : List LinkedDocument) (cs : List LinkedDocument) :
    sitesOfAll above cs = cs.flatMap (sites above) := by
  induction cs with
  | nil => rfl
  | cons c cs ih => rw [sitesOfAll, ih, List.flatMap_cons]

/-- The documents of a tree are its root and then, companion by companion, those below. -/
theorem sites_eq (above : List LinkedDocument) (d : LinkedDocument) :
    d.sites above = ⟨d, above⟩ :: d.companions.flatMap (sites (d :: above)) := by
  obtain ⟨label, declaration, companions⟩ := d
  rw [sites, sitesOfAll_eq]

def spec? (d : LinkedDocument) : Option SpecDeclaration := d.declaration.spec

def api? (d : LinkedDocument) : Option ApiDeclaration := d.spec? >>= (·.api)

def name? (d : LinkedDocument) : Option String := d.declaration.name >>= nonBlank?

/-- What a document sets for itself, or else the nearest of those it is declared in; what the root
sets counts without its blank ends. -/
def inherited (own : ApiDeclaration → Option String) (d : LinkedDocument) : List LinkedDocument → Option String
  | [] => d.api? >>= own >>= nonBlank?
  | a :: above => (d.api? >>= own) <|> a.inherited own above

end LinkedDocument

namespace Site

/-- The dependencies that a document declares. -/
def declared (s : Site) : List (Site × DependencyDeclaration) :=
  (s.document.spec?.elim [] (·.dependencies)).map (s, ·)

/-- A document gives a resource. -/
structure Gives (root : LinkedDocument) (s : Site) (r : Resource) : Prop where
  name : s.document.name? = some r.name
  kind : s.document.api? >>= (·.kind) >>= nonBlank? = some r.kind
  workloadKind : s.document.declaration.workloadKind s.document.label = .ok r.workloadKind
  companion : s.above ≠ [] → r.workloadKind = .component ∧ s.document.spec? >>= (·.repository) = none
  group : s.document.inherited (·.group) s.above = some r.group
  version : s.document.inherited (·.version) s.above = some r.version
  overrides : r.overridesGroupVersion ↔
    s.above ≠ [] ∧ ∃ api, s.document.api? = some api ∧ (api.group.isSome ∨ api.version.isSome)
  namespaced : r.namespaced = (s.document.api? >>= (·.namespaced) <|>
    s.document.spec? >>= (·.namespaced) <|> root.spec? >>= (·.namespaced)).getD true
  parent : r.parent.map some = s.above.head?.map (·.name?)
  companions : ∀ name, name ∈ r.companions ↔ ∃ c ∈ s.document.companions, c.name? = some name
  sorted : r.companions.Pairwise (· < ·)
  source : r.source = s.document.label

/-- A dependency that a document declares. Without a predicate of its own it asks what the kind of the
first resource of that name gives. -/
structure Settles (w : Workload) (x : Site × DependencyDeclaration) (d : Dependency) : Prop where
  dependent : x.1.document.name? = some d.dependent
  target : x.2.name >>= nonBlank? = some d.target
  readiness : d.readiness = (x.2.readiness >>= nonBlank?).getD
    (builtinPredicate ((w.resource? d.target).elim (Naming.upperCamel d.target) (·.kind)))

/-- The same before the resources are known. -/
structure Declares (x : Site × DependencyDeclaration) (p : PendingDependency) : Prop where
  dependent : x.1.document.name? = some p.dependent
  target : x.2.name >>= nonBlank? = some p.target
  readiness : x.2.readiness >>= nonBlank? = p.readiness

end Site

namespace Workload

variable {options : WorkloadOptions} {kind : WorkloadKind} {parent : Option Lineage} {doc : DocumentLabel}
  {d : Declaration} {r : Resource} {ds : List PendingDependency} {w : Workload} {root : LinkedDocument}

theorem demand_eq_ok {field : String} {value : Option String} {v : String} :
    Declaration.demand doc field value = .ok v ↔ value >>= nonBlank? = some v := by
  unfold Declaration.demand
  split
  next v' h => rw [h, Except.ok.injEq, Option.some.injEq]
  next h => rw [h]; exact ⟨nofun, nofun⟩

theorem demand_eq_error {field : String} {value : Option String} {e : ParseError} :
    Declaration.demand doc field value = .error e ↔ value >>= nonBlank? = none ∧ .missingField doc field = e := by
  unfold Declaration.demand
  split
  next v h => rw [h]; exact ⟨nofun, nofun⟩
  next h => rw [h]; exact ⟨fun he => ⟨rfl, Except.error.inj he⟩, fun he => congrArg _ he.2⟩

theorem demandSpec_eq_ok {spec : SpecDeclaration} : d.demandSpec doc = .ok spec ↔ d.spec = some spec := by
  unfold Declaration.demandSpec
  split
  next s h => rw [h, Except.ok.injEq, Option.some.injEq]
  next h => rw [h]; exact ⟨nofun, nofun⟩

theorem demandApi_eq_ok {spec : SpecDeclaration} {api : ApiDeclaration} :
    Declaration.demandApi spec doc = .ok api ↔ spec.api = some api := by
  unfold Declaration.demandApi
  split
  next a h => rw [h, Except.ok.injEq, Option.some.injEq]
  next h => rw [h]; exact ⟨nofun, nofun⟩

theorem forall₂_of_readAll {α β : Type} {read : Nat → α → Except ParseError β} {R : α → β → Prop}
    (hread : ∀ i a b, read i a = .ok b → R a b) {as : List α} {bs : List β} {i : Nat}
    (h : readAll read i as = .ok bs) : List.Forall₂ R as bs := by
  induction as generalizing i bs with
  | nil =>
    cases h
    exact .nil
  | cons a as ih =>
    obtain ⟨b, hb, h⟩ := bind_eq_ok.1 h
    obtain ⟨bs, hbs, h⟩ := bind_eq_ok.1 h
    cases h
    exact .cons (hread i a b hb) (ih hbs)

theorem of_pending {name : String} {i : Nat} {x : DependencyDeclaration} {p : PendingDependency}
    (h : PendingDependency.ofDeclaration doc name i x = .ok p) :
    p.dependent = name ∧ x.name >>= nonBlank? = some p.target ∧ x.readiness >>= nonBlank? = p.readiness := by
  unfold PendingDependency.ofDeclaration at h
  obtain ⟨target, htarget, h⟩ := bind_eq_ok.1 h
  split at h
  next hr =>
    cases h
    exact ⟨rfl, demand_eq_ok.1 htarget, hr⟩
  next r hr =>
    obtain ⟨-, h⟩ := guard_eq_ok.1 h
    cases h
    exact ⟨rfl, demand_eq_ok.1 htarget, hr⟩

/-- What a document says by itself, and what it takes from where it stands. -/
theorem of_describe (h : describe options kind parent doc d = .ok (r, ds)) : ∃ spec api,
    d.spec = some spec ∧ spec.api = some api ∧ (parent.isSome → spec.repository = none) ∧
    d.name >>= nonBlank? = some r.name ∧ api.kind >>= nonBlank? = some r.kind ∧
    r.workloadKind = kind ∧
    r.group = parent.elim options.group (api.group.getD ·.group) ∧
    r.version = parent.elim options.version (api.version.getD ·.version) ∧
    (r.overridesGroupVersion ↔ parent.isSome ∧ (api.group.isSome ∨ api.version.isSome)) ∧
    r.namespaced = (api.namespaced <|> spec.namespaced).getD options.namespaced ∧
    r.parent = parent.map (·.name) ∧ r.source = doc ∧
    List.Forall₂ (fun x p => p.dependent = r.name ∧ x.name >>= nonBlank? = some p.target ∧
      x.readiness >>= nonBlank? = p.readiness) spec.dependencies ds := by
  unfold describe at h
  obtain ⟨spec, hspec, h⟩ := bind_eq_ok.1 h
  obtain ⟨hrepository, h⟩ := guard_eq_ok.1 h
  obtain ⟨name, hname, h⟩ := bind_eq_ok.1 h
  obtain ⟨api, hapi, h⟩ := bind_eq_ok.1 h
  obtain ⟨apiKind, hkind, h⟩ := bind_eq_ok.1 h
  obtain ⟨fields, -, h⟩ := bind_eq_ok.1 h
  obtain ⟨markers, -, h⟩ := bind_eq_ok.1 h
  obtain ⟨dependencies, hdependencies, h⟩ := bind_eq_ok.1 h
  have hds := forall₂_of_readAll (R := fun x p => p.dependent = name ∧ x.name >>= nonBlank? = some p.target ∧
    x.readiness >>= nonBlank? = p.readiness) (fun _ _ _ hp => of_pending hp) hdependencies
  cases h
  refine ⟨spec, api, demandSpec_eq_ok.1 hspec, demandApi_eq_ok.1 hapi, fun hp => ?_, demand_eq_ok.1 hname,
    demand_eq_ok.1 hkind, rfl, ?_, ?_, by simp, rfl, rfl, rfl, hds⟩
  · simpa [hp] using hrepository
  · cases parent <;> rfl
  · cases parent <;> rfl

theorem mem_insertName {name n : String} {ns : List String} : n ∈ insertName name ns ↔ n = name ∨ n ∈ ns := by
  induction ns with
  | nil => simp [insertName]
  | cons m ns ih =>
    rw [insertName]
    split
    · simp
    · split
      next h => simp [h]
      next => simp [ih, or_left_comm]

theorem pairwise_insertName {name : String} {ns : List String} (h : ns.Pairwise (· < ·)) :
    (insertName name ns).Pairwise (· < ·) := by
  induction h with
  | nil => simp [insertName]
  | @cons m ns hm hns ih =>
    rw [insertName]
    split
    next hlt => exact .cons (List.forall_mem_cons.2 ⟨hlt, fun n hn => hlt.trans (hm n hn)⟩) (.cons hm hns)
    next hlt =>
      split
      next => exact .cons hm hns
      next hne =>
        refine .cons (fun n hn => ?_) ih
        obtain rfl | hn := mem_insertName.1 hn
        · exact lt_of_le_of_ne (not_lt.1 hlt) (Ne.symm hne)
        · exact hm n hn

/-- The set of some names is sorted, and holds these and no others. -/
theorem foldr_insertName_spec (names : List String) :
    (∀ n, n ∈ names.foldr insertName [] ↔ n ∈ names) ∧ (names.foldr insertName []).Pairwise (· < ·) := by
  induction names with
  | nil => exact ⟨fun n => .rfl, .nil⟩
  | cons name names ih =>
    exact ⟨fun n => by rw [List.foldr_cons, mem_insertName, ih.1, List.mem_cons], pairwise_insertName ih.2⟩

/-- The options of a workload are those of its root. -/
structure RootOptions (root : LinkedDocument) (options : WorkloadOptions) : Prop where
  group : root.api? >>= (·.group) >>= nonBlank? = some options.group
  version : root.api? >>= (·.version) >>= nonBlank? = some options.version
  namespaced : (root.spec? >>= (·.namespaced)).getD true = options.namespaced

/-- Where a document stands that is described with a lineage. -/
inductive Stands (root : LinkedDocument) :
    LinkedDocument → WorkloadKind → Option Lineage → List LinkedDocument → Prop
  | root {kind : WorkloadKind} : Stands root root kind none []
  | below {d a : LinkedDocument} {above : List LinkedDocument} {p : Lineage} : a.name? = some p.name →
      a.inherited (·.group) above = some p.group → a.inherited (·.version) above = some p.version →
      Stands root d .component (some p) (a :: above)

open LinkedDocument Site

variable {above : List LinkedDocument} {document : LinkedDocument} {names : List String}

theorem inherited_cons {own : ApiDeclaration → Option String} {api : ApiDeclaration} {a : LinkedDocument}
    {v : String} (hapi : document.api? = some api) (ha : a.inherited own above = some v) :
    document.inherited own (a :: above) = some ((own api).getD v) := by
  rw [inherited, hapi, ha, Option.bind_eq_bind, Option.bind_some]
  cases own api <;> rfl

/-- What the companions of a document take from it. -/
theorem lineage_of_describe (ho : RootOptions root options) (hs : Stands root document kind parent above)
    (h : describe options kind parent document.label document.declaration = .ok (r, ds)) :
    document.name? = some r.name ∧ document.inherited (·.group) above = some r.group ∧
      document.inherited (·.version) above = some r.version := by
  obtain ⟨spec, api, hspec, hapi, -, hname, -, -, hgroup, hversion, -⟩ := of_describe h
  have hapi? : document.api? = some api := by
    rw [api?, spec?, hspec]
    exact hapi
  cases hs with
  | root => exact ⟨hname, by rw [hgroup]; exact ho.group, by rw [hversion]; exact ho.version⟩
  | below hpname hpgroup hpversion =>
    exact ⟨hname, by rw [hgroup]; exact inherited_cons hapi? hpgroup,
      by rw [hversion]; exact inherited_cons hapi? hpversion⟩

theorem mem_names_iff {cs : List LinkedDocument} (h : List.Forall₂ (fun c n => c.name? = some n) cs names)
    (name : String) : name ∈ names ↔ ∃ c ∈ cs, c.name? = some name := by
  induction h with
  | nil => simp
  | cons hc _ ih => simp [ih, hc, eq_comm]

/-- A document gives the resource that is described, with the names of its companions. -/
theorem gives_of_describe (ho : RootOptions root options)
    (hk : document.declaration.workloadKind document.label = .ok kind)
    (hs : Stands root document kind parent above)
    (hn : List.Forall₂ (fun c n => c.name? = some n) document.companions names)
    (h : describe options kind parent document.label document.declaration = .ok (r, ds)) :
    Site.Gives root ⟨document, above⟩ { r with companions := names.foldr insertName [] } := by
  obtain ⟨hname, hgroup, hversion⟩ := lineage_of_describe ho hs h
  obtain ⟨spec, api, hspec, hapi, hrepository, -, hkind, hwk, -, -, hoverrides, hnamespaced, hparent,
    hsource, -⟩ := of_describe h
  have hspec? : document.spec? = some spec := hspec
  have hapi? : document.api? = some api := by rw [api?, hspec?]; exact hapi
  have habove : above ≠ [] ↔ parent.isSome := by cases hs <;> simp
  obtain ⟨hmem, hsorted⟩ := foldr_insertName_spec names
  exact {
    name := hname
    kind := by rw [hapi?]; exact hkind
    workloadKind := hk.trans (congrArg _ hwk.symm)
    companion := by
      intro hne
      refine ⟨?_, by rw [hspec?]; exact hrepository (habove.1 hne)⟩
      cases hs with
      | root => exact absurd rfl hne
      | below => exact hwk
    group := hgroup
    version := hversion
    overrides := by
      rw [hoverrides, habove]
      simp [hapi?]
    namespaced := by
      rw [hnamespaced, ← ho.namespaced, hapi?, hspec?]
      cases hn : api.namespaced with
      | some b => simp [hn]
      | none => cases hs : spec.namespaced <;> simp [hn, hs]
    parent := by
      rw [hparent]
      cases hs with
      | root => rfl
      | below hpname => rw [List.head?_cons, Option.map_some, Option.map_some, Option.map_some, hpname]
    companions := fun name => (hmem name).trans (mem_names_iff hn name)
    sorted := hsorted
    source := hsource }

theorem declares_of_describe (h : describe options kind parent document.label document.declaration = .ok (r, ds)) :
    List.Forall₂ Site.Declares (Site.declared ⟨document, above⟩) ds := by
  obtain ⟨spec, -, hspec, -, -, hname, -, -, -, -, -, -, -, -, hds⟩ := of_describe h
  rw [declared, spec?, hspec, List.forall₂_map_left_iff]
  exact hds.imp fun x p ⟨hdependent, htarget, hreadiness⟩ => ⟨hdependent ▸ hname, htarget, hreadiness⟩

mutual

/-- The resources come in the order of the documents, and so do the dependencies. -/
theorem gives_of_gather (ho : RootOptions root options) : ∀ {kind : WorkloadKind} {parent : Option Lineage}
    {document : LinkedDocument} {above : List LinkedDocument} {rs : List Resource}
    {ds : List PendingDependency},
    document.declaration.workloadKind document.label = .ok kind →
    Stands root document kind parent above → gather options kind parent document = .ok (rs, ds) →
    List.Forall₂ (Site.Gives root) (document.sites above) rs ∧
      List.Forall₂ Site.Declares ((document.sites above).flatMap Site.declared) ds
  | kind, parent, ⟨doc, d, companions⟩, above, rs, ds, hk, hs, h => by
    rw [gather] at h
    obtain ⟨⟨r, own⟩, hr, h⟩ := bind_eq_ok.1 h
    obtain ⟨⟨names, rest, more⟩, hmore, h⟩ := bind_eq_ok.1 h
    cases h
    obtain ⟨hname, hgroup, hversion⟩ := lineage_of_describe ho hs hr
    obtain ⟨hnames, hgives, hdeclares⟩ := gives_of_gatherCompanions ho hname hgroup hversion hmore
    refine ⟨.cons (gives_of_describe ho hk hs hnames hr) hgives, ?_⟩
    rw [sites, List.flatMap_cons]
    exact List.rel_append (declares_of_describe hr) hdeclares

theorem gives_of_gatherCompanions (ho : RootOptions root options) : ∀ {a : LinkedDocument}
    {above : List LinkedDocument} {parent : Lineage} {cs : List LinkedDocument} {names : List String}
    {rs : List Resource} {ds : List PendingDependency},
    a.name? = some parent.name → a.inherited (·.group) above = some parent.group →
    a.inherited (·.version) above = some parent.version →
    gatherCompanions options parent cs = .ok (names, rs, ds) →
    List.Forall₂ (fun c n => c.name? = some n) cs names ∧
      List.Forall₂ (Site.Gives root) (sitesOfAll (a :: above) cs) rs ∧
      List.Forall₂ Site.Declares ((sitesOfAll (a :: above) cs).flatMap Site.declared) ds
  | a, above, parent, [], names, rs, ds, _, _, _, h => by
    rw [gatherCompanions] at h
    cases h
    exact ⟨.nil, .nil, .nil⟩
  | a, above, parent, c :: cs, names, rs, ds, hname, hgroup, hversion, h => by
    rw [gatherCompanions] at h
    obtain ⟨kind, hkind, h⟩ := bind_eq_ok.1 h
    obtain ⟨hcomponent, h⟩ := guard_eq_ok.1 h
    obtain ⟨name, hcname, h⟩ := bind_eq_ok.1 h
    obtain ⟨⟨first, own⟩, hfirst, h⟩ := bind_eq_ok.1 h
    obtain ⟨⟨names', rest, more⟩, hrest, h⟩ := bind_eq_ok.1 h
    cases h
    obtain rfl : kind = .component := Decidable.not_not.1 hcomponent
    obtain ⟨hgives, hdeclares⟩ := gives_of_gather ho hkind (.below hname hgroup hversion) hfirst
    obtain ⟨hnames, hgives', hdeclares'⟩ := gives_of_gatherCompanions ho hname hgroup hversion hrest
    refine ⟨.cons (demand_eq_ok.1 hcname) hnames, List.rel_append hgives hgives', ?_⟩
    rw [sitesOfAll, List.flatMap_append]
    exact List.rel_append hdeclares hdeclares'

end

theorem settles_of_declares {x : Site × DependencyDeclaration} {p : PendingDependency}
    (h : Site.Declares x p) : Site.Settles w x (p.settle w.resources) where
  dependent := h.dependent
  target := h.target
  readiness := by
    rw [h.readiness, PendingDependency.settle, resource?]
    cases w.resources.find? (·.name = p.target) <;> rfl

/-- A workload links the tree of its documents. Its resources are those of the documents, each with
its parent, companions, group and version and scope as the documents lay them down; its dependencies
are those the documents declare. -/
theorem build_links (h : build root = .ok w) :
    (∃ kind, root.declaration.workloadKind root.label = .ok kind ∧ kind ≠ .component ∧
      (kind = .standalone → root.companions = [])) ∧
    List.Forall₂ (Site.Gives root) (root.sites []) w.resources ∧
    List.Forall₂ (Site.Settles w) ((root.sites []).flatMap Site.declared) w.dependencies := by
  obtain ⟨kind, hkind, h⟩ := bind_eq_ok.1 h
  obtain ⟨hcomponent, h⟩ := guard_eq_ok.1 h
  obtain ⟨halone, h⟩ := guard_eq_ok.1 h
  obtain ⟨name, -, h⟩ := bind_eq_ok.1 h
  obtain ⟨spec, hspec, h⟩ := bind_eq_ok.1 h
  obtain ⟨repository, -, h⟩ := bind_eq_ok.1 h
  obtain ⟨api, hapi, h⟩ := bind_eq_ok.1 h
  obtain ⟨group, hgroup, h⟩ := bind_eq_ok.1 h
  obtain ⟨version, hversion, h⟩ := bind_eq_ok.1 h
  obtain ⟨⟨resources, dependencies⟩, hgather, h⟩ := bind_eq_ok.1 h
  have hspec? : root.spec? = some spec := demandSpec_eq_ok.1 hspec
  have hapi? : root.api? = some api := by
    rw [api?, hspec?]
    exact demandApi_eq_ok.1 hapi
  have ho : RootOptions root w.options := by
    cases h
    exact ⟨by rw [hapi?]; exact demand_eq_ok.1 hgroup, by rw [hapi?]; exact demand_eq_ok.1 hversion,
      by rw [hspec?]; rfl⟩
  have hw : w.resources = resources ∧ w.dependencies = dependencies.map (PendingDependency.settle resources) := by
    cases h
    exact ⟨rfl, rfl⟩
  have hgather : gather w.options kind none root = .ok (resources, dependencies) := by
    cases h
    exact hgather
  obtain ⟨hgives, hdeclares⟩ := gives_of_gather ho hkind .root hgather
  refine ⟨⟨kind, hkind, hcomponent, fun hk => ?_⟩, hw.1 ▸ hgives, ?_⟩
  · simpa [hk] using halone
  · rw [hw.2, ← hw.1, List.forall₂_map_right_iff]
    exact hdeclares.imp fun _ _ => settles_of_declares

theorem build_links_two_levels_down :
    let declare (kind name : String) (spec : SpecDeclaration) : Declaration :=
      ⟨some "opforge.dev/v1alpha1", some kind, some name, some spec⟩
    let shard : LinkedDocument := ⟨"shard.yaml", declare "ComponentWorkload" " shard " ⟨none, none, none,
      some ⟨none, none, some "Shard", none, none⟩, [], [⟨some "cache", none⟩], []⟩, []⟩
    let cache : LinkedDocument := ⟨"cache.yaml", declare "ComponentWorkload" "cache" ⟨none, none, some true,
      some ⟨none, some "v2", some "Cache", none, none⟩, [], [], []⟩, [shard]⟩
    let root : LinkedDocument := ⟨"root.yaml", declare "WorkloadCollection" "platform" ⟨some "acme", none,
      some false, some ⟨some "apps", some "v1", some "Platform", none, none⟩, [], [], []⟩, [cache]⟩
    ∃ w, build root = .ok w ∧ List.Forall₂ (Site.Gives root) (root.sites []) w.resources ∧
      shard.inherited (·.version) [cache, root] = some "v2" ∧
      ∃ d ∈ w.dependencies, d.dependent = "shard" ∧ d.readiness = "CacheCheckReady" := by
  intro declare shard cache root
  have hb : (build root).toBool = true := by decide +kernel
  obtain ⟨w, hw⟩ : ∃ w, build root = .ok w := by
    cases h : build root with
    | error e =>
      rw [h] at hb
      cases hb
    | ok w => exact ⟨w, rfl⟩
  have hd : (build root).toOption.map (·.dependencies) = some [⟨"shard", "cache", "CacheCheckReady"⟩] := by
    decide +kernel
  obtain ⟨-, hgives, -⟩ := build_links hw
  rw [hw] at hd
  have hd : w.dependencies = [⟨"shard", "cache", "CacheCheckReady"⟩] := Option.some.inj hd
  refine ⟨w, hw, hgives, by decide +kernel, ⟨"shard", "cache", "CacheCheckReady"⟩, ?_, rfl, rfl⟩
  rw [hd]
  exact .head _

end Workload

end OperatorScaffold

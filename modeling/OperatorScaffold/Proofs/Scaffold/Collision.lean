import OperatorScaffold.Proofs.Graph.Agreement
import OperatorScaffold.Proofs.Naming.Spelling
import OperatorScaffold.Proofs.Scaffold.Distinct
/-!
Two resources are scaffolded to one file only where their kinds have one spelling in snake case. Since the
spelling tells the kind but for its case, such resources are in different groups or versions, and the first
file that both of them have is that of the readiness checks.
-/

namespace OperatorScaffold

open ArtifactKind Naming Validation
open scoped List

namespace ArtifactKind

variable {i : Identity}

theorem relativePath_dependencies (hi : i.Sound) :
    relativePath .dependencies i = ⟨"internal/dependencies/" ++ snakeCase i.kind ++ ".go"⟩ := by
  have hfile : Path.IsPiece (snakeCase i.kind ++ ".go") :=
    ⟨fileName_ne (k := .dependencies) (i := i) (by simp), slash_not_mem_fileName (k := .dependencies) hi⟩
  have hfolder : (⟨"internal"⟩ : Path).join ⟨"dependencies"⟩ = ⟨"internal/dependencies"⟩ := by decide +kernel
  have hjoin : relativePath .dependencies i =
      ((⟨"internal"⟩ : Path).join ⟨"dependencies"⟩).join ⟨snakeCase i.kind ++ ".go"⟩ := by
    rw [relativePath, Path.joinAll, List.foldl_cons, List.foldl_cons, List.foldl_nil]
    rfl
  rw [hjoin, hfolder, Path.join, if_neg hfile.relative, if_neg (by decide +kernel), ← String.append_assoc]
  rfl

end ArtifactKind

/-- Where a list of pairs is cut in two, the first list of the product is, and the second one as well. -/
theorem product_eq_append {α β : Type} {as : List α} {bs : List β} {a : α} {b : β} {front back : List (α × β)}
    (h : as ×ˢ bs = front ++ (a, b) :: back) : ∃ as₁ as₂ bs₁ bs₂, as = as₁ ++ a :: as₂ ∧ bs = bs₁ ++ b :: bs₂ ∧
      front = as₁ ×ˢ bs ++ bs₁.map (a, ·) := by
  induction as generalizing front with
  | nil => simp at h
  | cons c as ih =>
    rw [List.product_cons] at h
    obtain ⟨more, rfl, hrest⟩ | ⟨more, hmap, hrest⟩ := List.append_eq_append_iff.1 h
    · obtain ⟨as₁, as₂, bs₁, bs₂, rfl, rfl, rfl⟩ := ih hrest
      exact ⟨c :: as₁, as₂, bs₁, bs₂, rfl, rfl, by rw [List.product_cons, List.append_assoc]⟩
    · cases more with
      | nil =>
        have hrest : as ×ˢ bs = [] ++ (a, b) :: back := hrest.symm
        obtain ⟨as₁, as₂, bs₁, bs₂, rfl, rfl, hfront⟩ := ih hrest
        refine ⟨c :: as₁, as₂, bs₁, bs₂, rfl, rfl, ?_⟩
        rw [List.product_cons, List.append_assoc, ← hfront, hmap, List.append_nil, List.append_nil]
      | cons x more =>
        obtain ⟨rfl, -⟩ := List.cons.inj hrest
        obtain ⟨bs₁, tail, rfl, rfl, htail⟩ := List.map_eq_append_iff.1 hmap
        obtain ⟨b', bs₂, rfl, hb, -⟩ := List.map_eq_cons_iff.1 htail
        obtain ⟨rfl, rfl⟩ := Prod.mk.inj hb
        exact ⟨[], as, bs₁, bs₂, rfl, rfl, by simp⟩

namespace Workload

variable {w : Workload} {r s : Resource} {path : Path} {first second : String} {k : ArtifactKind}

/-- The first kind of artifact that two resources have at one path. -/
structure Meet (w : Workload) (r s : Resource) (k : ArtifactKind) : Prop where
  parts : (w.pathOf (r, k)).parts = (w.pathOf (s, k)).parts
  first : ∃ ks ks', perResource = ks ++ k :: ks' ∧ ∀ k' ∈ ks, (w.pathOf (r, k')).parts ≠ (w.pathOf (s, k')).parts

theorem checkPaths_of_build (h : ResourceGraph.build w = .error (.artifactCollision path first second)) :
    checkPaths w = .error (.artifactCollision path first second) := by
  unfold ResourceGraph.build at h
  obtain h | ⟨_, -, h⟩ := bind_eq_error.1 h
  · nomatch (settles_checkGvks.error _ h).1
  obtain h | ⟨_, -, h⟩ := bind_eq_error.1 h
  · nomatch (settles_checkNames.error _ h).1
  obtain h | ⟨_, -, h⟩ := bind_eq_error.1 h
  · nomatch (settles_checkForms.error _ h).1
  obtain h | ⟨_, -, h⟩ := bind_eq_error.1 h
  · nomatch ((Settles.forM fun _ => settles_checkIdentity).error _ h).1
  obtain h | ⟨_, -, h⟩ := bind_eq_error.1 h
  · nomatch ((Settles.forM fun _ => settles_checkMarkers).error _ h).1
  obtain h | ⟨_, -, h⟩ := bind_eq_error.1 h
  · exact h
  obtain h | ⟨_, -, h⟩ := bind_eq_error.1 h
  · nomatch ((Settles.forM fun _ => settles_checkDependency).error _ h).1
  obtain h | ⟨_, -, h⟩ := bind_eq_error.1 h
  · nomatch (settles_checkPredicates.error _ h).1
  · cases h

theorem validate_of_build_eq_error {e : ValidationError} (h : ResourceGraph.build w = .error e) :
    w.validate = .error e := by
  unfold validate
  rw [h]
  rfl

/-- What is reported to collide are two resources in their order, at the first kind that meets. -/
theorem exists_meet (hn : w.names.Nodup) (hs : Rule.shapes.Holds w)
    (h : checkPaths w = .error (.artifactCollision path first second)) :
    ∃ r s k, [r, s] <+ w.resources ∧ r.name = first ∧ s.name = second ∧ path = w.pathOf (s, k) ∧ w.Meet r s k := by
  rw [checkPaths, flatMap_pathClaims] at h
  split at h
  next hc =>
    obtain ⟨front, ⟨r, k'⟩, ⟨s, k⟩, back, hcut, hmet, hkey, rfl, rfl, hfront⟩ := clash?_map_front hc
    obtain ⟨rfl, rfl, rfl⟩ := ValidationError.artifactCollision.inj (Except.error.inj h)
    obtain ⟨rs, ss, ks, ks', hresources, hkinds, rfl⟩ := product_eq_append hcut
    have hsound {r : Resource} (hr : r ∈ rs ∨ r = s) : (Identity.ofResource w r).Sound :=
      sound_ofResource hs (by simpa [hresources] using hr.imp_right .inl)
    have hkind (hr : r ∈ rs ∨ r = s) : k' = k := kind_of_parts (hsound hr) (hsound (.inr rfl)) hkey
    obtain hmet | hmet := List.mem_append.1 hmet
    · have hr : r ∈ rs := (List.mem_product.1 hmet).1
      obtain rfl := hkind (.inl hr)
      refine ⟨r, s, k', ?_, rfl, rfl, rfl, hkey, ks, ks', hkinds, fun l hl he => ?_⟩
      · rw [hresources]
        exact (List.singleton_sublist.2 hr).append (List.singleton_sublist.2 List.mem_cons_self)
      · -- what both have of a kind before is looked at before, so that it would have been found then
        have hlr : (r, l) ∈ rs ×ˢ perResource ++ ks.map (s, ·) :=
          List.mem_append_left _ (List.mem_product.2 ⟨hr, by simp [hkinds, hl]⟩)
        have hls : (s, l) ∈ rs ×ˢ perResource ++ ks.map (s, ·) :=
          List.mem_append_right _ (List.mem_map_of_mem hl)
        obtain rfl : r = s := congrArg Prod.fst (List.inj_on_of_nodup_map hfront hlr hls he)
        have hdistinct : (rs ++ r :: ss).Nodup := hresources ▸ hn.of_map
        exact (List.nodup_append.1 hdistinct).2.2 r hr r List.mem_cons_self rfl
    · obtain ⟨l, hl, he⟩ := List.mem_map.1 hmet
      obtain ⟨rfl, rfl⟩ := Prod.mk.inj he
      obtain rfl := hkind (.inr rfl)
      have hdistinct : (ks ++ l :: ks').Nodup := hkinds ▸ (by decide : perResource.Nodup)
      exact absurd rfl ((List.nodup_append.1 hdistinct).2.2 l hl l List.mem_cons_self)
  next => cases h

theorem package_ne_of_spelling (hb : RulesBelow w Rule.paths.rank) (hrs : [r, s] <+ w.resources)
    (h : snakeCase r.kind = snakeCase s.kind) : r.package ≠ s.package := by
  intro hpackage
  obtain ⟨hg, hv⟩ := Prod.mk.inj hpackage
  have hshaped : ∀ t ∈ w.resources, t.WellShaped := (hb .shapes (by decide)).1
  have hr := (hshaped r (hrs.subset (by simp))).kind.alphanumeric
  have hs := (hshaped s (hrs.subset (by simp))).kind.alphanumeric
  have hforms := List.pairwise_pair.1 ((hb .names (by decide)).2.sublist hrs) hg hv
  exact hforms (Text.toLower r.kind) (.inl rfl) (.inl (toLower_eq_of_snakeCase_eq hr hs h))

theorem Meet.spelling (hs : Rule.shapes.Holds w) (hrs : [r, s] <+ w.resources) (h : w.Meet r s k) :
    snakeCase r.kind = snakeCase s.kind := by
  have hr := sound_ofResource hs (hrs.subset (by simp : r ∈ [r, s]))
  have hs := sound_ofResource hs (hrs.subset (by simp : s ∈ [r, s]))
  obtain ⟨ks, ks', hkinds, -⟩ := h.first
  have hk : k ∈ perResource := by simp [hkinds]
  have hkind : k ≠ .groupVersion := by
    rintro rfl
    exact absurd hk (by decide)
  have hplace : k.place (.ofResource w r) = k.place (.ofResource w s) := place_of_parts hr hs h.parts
  have hspelling : snakeCase (Identity.ofResource w r).kind = snakeCase (Identity.ofResource w s).kind :=
    snakeCase_eq hr hs hkind hplace
  exact hspelling

/-- Controllers meet only where the readiness checks have met, and the rest tells the package. -/
theorem Meet.kind (hb : RulesBelow w Rule.paths.rank) (hrs : [r, s] <+ w.resources) (h : w.Meet r s k) :
    k = .dependencies := by
  have hspelling := h.spelling (hb .shapes (by decide)) hrs
  have hr := sound_ofResource (hb .shapes (by decide)) (hrs.subset (by simp : r ∈ [r, s]))
  have hs := sound_ofResource (hb .shapes (by decide)) (hrs.subset (by simp : s ∈ [r, s]))
  by_contra hk
  by_cases hcontroller : k = .controller
  · subst hcontroller
    obtain ⟨ks, ks', hkinds, hfirst⟩ := h.first
    have hm : ArtifactKind.dependencies ∈ ks ++ .controller :: ks' := hkinds ▸ by decide
    obtain hm | hm := List.mem_append.1 hm
    · refine hfirst _ hm ?_
      rw [pathOf, pathOf, relativePath_dependencies hr, relativePath_dependencies hs]
      exact congrArg (fun file => (⟨"internal/dependencies/" ++ file ++ ".go"⟩ : Path).parts) hspelling
    · have hne : ArtifactKind.dependencies ≠ .controller := by decide
      have hm : ArtifactKind.dependencies ∈ ks' := (List.mem_cons.1 hm).resolve_left hne
      have hsub : [ArtifactKind.controller, .dependencies] <+ perResource :=
        hkinds ▸ List.sublist_append_of_sublist_right (List.cons_sublist_cons.2 (List.singleton_sublist.2 hm))
      exact absurd hsub (by decide)
  · obtain ⟨hg, hv⟩ := package_of_place hr hs ⟨hk, hcontroller⟩ (place_of_parts hr hs h.parts)
    exact package_ne_of_spelling hb hrs hspelling (Prod.ext hg hv)

theorem pairwise_spelling (hn : w.names.Nodup) (hp : Rule.paths.Holds w) :
    w.resources.Pairwise fun r s => snakeCase r.kind ≠ snakeCase s.kind := by
  refine hn.of_map.imp_of_mem fun {r s} hr hs hne he => hne ?_
  exact eq_of_snakeCase_eq hp hr hs he

theorem exists_artifactCollision {e : ValidationError} (h : e.rule = .paths) :
    ∃ path first second, e = .artifactCollision path first second := by
  cases e with
  | artifactCollision path first second => exact ⟨path, first, second, rfl⟩
  | _ => cases h

theorem exists_collision_iff :
    (∃ path first second, ResourceGraph.build w = .error (.artifactCollision path first second)) ↔
      RulesBelow w Rule.paths.rank ∧ ¬w.resources.Pairwise fun r s => snakeCase r.kind ≠ snakeCase s.kind := by
  constructor
  · rintro ⟨path, first, second, h⟩
    have hb : RulesBelow w Rule.paths.rank := ((decides_validate w).error _ (validate_of_build_eq_error h)).2
    obtain ⟨r, s, k, hrs, -, -, -, hm⟩ :=
      exists_meet (hb .names (by decide)).1 (hb .shapes (by decide)) (checkPaths_of_build h)
    refine ⟨hb, fun hpairwise => ?_⟩
    exact List.pairwise_pair.1 (hpairwise.sublist hrs) (hm.spelling (hb .shapes (by decide)) hrs)
  · rintro ⟨hb, hclash⟩
    have hpaths : ¬Rule.paths.Holds w := fun hp => hclash (pairwise_spelling (hb .names (by decide)).1 hp)
    cases h : ResourceGraph.build w with
    | ok g => exact absurd (rulesBelow_of_build h .paths (by decide)) hpaths
    | error e =>
      obtain ⟨hdescribes, hbelow⟩ := (decides_validate w).error _ (validate_of_build_eq_error h)
      have hle : e.rule.rank ≤ Rule.paths.rank := Nat.le_of_not_lt fun hlt => hpaths (hbelow .paths hlt)
      have hge : Rule.paths.rank ≤ e.rule.rank := Nat.le_of_not_lt fun hlt => hdescribes.not_holds (hb e.rule hlt)
      obtain ⟨path, first, second, rfl⟩ := exists_artifactCollision (Rule.rank_inj (Nat.le_antisymm hle hge))
      exact ⟨path, first, second, rfl⟩

end Workload

/-- Snake case adds underscores only. A collision of artifacts is therefore reported of two kinds with one
spelling in different groups or versions, and of the file of their readiness checks; it is reported just
where two kinds have one spelling and the rules before hold, and in what is accepted no two kinds have. -/
theorem Workload.artifacts_collide_where_spellings_do (w : Workload) :
    (∀ name : String, (∀ c ∈ name.toList, isAlphanumeric c) →
      String.ofList ((snakeCase name).toList.filter (· != '_')) = Text.toLower name) ∧
    (∀ path first second, ResourceGraph.build w = .error (.artifactCollision path first second) →
      w.names.Nodup ∧ ∃ r s, [r, s] <+ w.resources ∧ r.name = first ∧ s.name = second ∧ r.package ≠ s.package ∧
        snakeCase r.kind = snakeCase s.kind ∧
        path.text = "internal/dependencies/" ++ snakeCase r.kind ++ ".go") ∧
    ((∃ path first second, ResourceGraph.build w = .error (.artifactCollision path first second)) ↔
      RulesBelow w Rule.paths.rank ∧ ¬w.resources.Pairwise fun r s => snakeCase r.kind ≠ snakeCase s.kind) ∧
    ∀ order, w.validate = .ok order → w.resources.Pairwise fun r s => snakeCase r.kind ≠ snakeCase s.kind := by
  refine ⟨fun name => filter_snakeCase, fun path first second h => ?_, exists_collision_iff, fun order h => ?_⟩
  · have hb : RulesBelow w Rule.paths.rank := ((decides_validate w).error _ (validate_of_build_eq_error h)).2
    have hn : w.names.Nodup := (hb .names (by decide)).1
    have hshapes : Rule.shapes.Holds w := hb .shapes (by decide)
    obtain ⟨r, s, k, hrs, hr, hs, rfl, hm⟩ := exists_meet hn hshapes (checkPaths_of_build h)
    have hspelling := hm.spelling hshapes hrs
    refine ⟨hn, r, s, hrs, hr, hs, package_ne_of_spelling hb hrs hspelling, hspelling, ?_⟩
    obtain rfl := hm.kind hb hrs
    rw [hspelling]
    exact congrArg Path.text (relativePath_dependencies (sound_ofResource hshapes (hrs.subset (by simp))))
  · have hw := (decides_validate w).ok _ h
    exact pairwise_spelling (hw .names).1 (hw .paths)

theorem eq_error_of_match {ε α : Type} {x : Except ε α} {e : ε}
    (h : (match x with | .error d => some d | .ok _ => none) = some e) : x = .error e := by
  cases x with
  | error d => exact congrArg _ (Option.some.inj h)
  | ok a => cases h

namespace Route

def lamp : Resource := ⟨"lamp", .component, "net", "v1", "Lamp", "lamps", true, [], [], [], none, false, "a.yaml"⟩

def old : Resource := ⟨"old", .component, "net", "v1", "URL", "urls", true, [], [], [], none, false, "b.yaml"⟩

def new : Resource := ⟨"new", .component, "net", "v2", "Url", "urls", true, [], [], [], none, false, "c.yaml"⟩

def workload (more : Resource) : Workload := ⟨"w", "a.yaml", "r", ⟨"net", "v1", none, true⟩, [old, more], []⟩

theorem build_workload :
    ResourceGraph.build (workload new) = .error (.artifactCollision ⟨"internal/dependencies/url.go"⟩ "old" "new") :=
  eq_error_of_match (by decide +kernel)

theorem validate_workload : (workload lamp).validate = .ok [lamp, old] :=
  Workload.validate_of_names (by simp [workload]) (by decide +kernel)

theorem artifacts_collide_where_spellings_do_of_a_kind_in_two_versions :
    String.ofList ((snakeCase "URL").toList.filter (· != '_')) = Text.toLower "URL" ∧
    ResourceGraph.build (workload new) = .error (.artifactCollision ⟨"internal/dependencies/url.go"⟩ "old" "new") ∧
    (∃ r s, [r, s] <+ (workload new).resources ∧ r.name = "old" ∧ s.name = "new" ∧ r.package ≠ s.package ∧
      snakeCase r.kind = snakeCase s.kind ∧
      "internal/dependencies/url.go" = "internal/dependencies/" ++ snakeCase r.kind ++ ".go") ∧
    (workload lamp).validate = .ok [lamp, old] ∧
    (workload lamp).resources.Pairwise fun r s => snakeCase r.kind ≠ snakeCase s.kind := by
  obtain ⟨hspelling, hcollision, -⟩ := Workload.artifacts_collide_where_spellings_do (workload new)
  obtain ⟨-, -, -, haccepted⟩ := Workload.artifacts_collide_where_spellings_do (workload lamp)
  exact ⟨hspelling _ (List.all_eq_true.1 (by decide)), build_workload, (hcollision _ _ _ build_workload).2,
    validate_workload, haccepted _ validate_workload⟩

end Route

end OperatorScaffold

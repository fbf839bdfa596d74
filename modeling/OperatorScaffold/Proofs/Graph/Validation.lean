import OperatorScaffold.Proofs.Graph.Clash
import OperatorScaffold.Proofs.Graph.Cycle
import OperatorScaffold.Proofs.Graph.Rule
/-!
Validation accepts the well-formed workloads and no others. Each check is settled on its own: what
holds after it has passed, and what its error describes.
-/

namespace OperatorScaffold

open scoped List
open Naming Relation Validation ValidationError

/-- A check of `P`, which belongs to a rule. -/
structure Settles (w : Workload) (check : Except ValidationError Unit) (rule : Rule) (P : Prop) :
    Prop where
  ok : check = .ok () → P
  error : ∀ e, check = .error e → e.rule = rule ∧ e.Describes w

variable {w : Workload}

theorem Settles.imp {check : Except ValidationError Unit} {rule : Rule} {P Q : Prop} (hPQ : P → Q)
    (h : Settles w check rule P) : Settles w check rule Q :=
  ⟨fun hc => hPQ (h.ok hc), h.error⟩

theorem Settles.pass {rule : Rule} : Settles w (.ok ()) rule True := ⟨fun _ => trivial, nofun⟩

theorem Settles.unless {b : Bool} {e : ValidationError} {check : Except ValidationError Unit}
    {rule : Rule} {P Q : Prop} (hb : b ↔ P) (he : ¬P → e.rule = rule ∧ e.Describes w)
    (h : Settles w check rule Q) : Settles w (if !b then .error e else check) rule (P ∧ Q) := by
  cases b with
  | false => exact ⟨nofun, fun _ hc => Except.error.inj hc ▸ he fun hP => nomatch hb.2 hP⟩
  | true => exact ⟨fun hc => ⟨hb.1 rfl, h.ok hc⟩, h.error⟩

theorem Settles.and {x y : Except ValidationError Unit} {rule : Rule} {P Q : Prop}
    (hx : Settles w x rule P) (hy : Settles w y rule Q) :
    Settles w (x >>= fun _ => y) rule (P ∧ Q) where
  ok h := by
    obtain ⟨_, h₁, h₂⟩ := bind_eq_ok.1 h
    exact ⟨hx.ok h₁, hy.ok h₂⟩
  error e h := by
    obtain h | ⟨_, -, h⟩ := bind_eq_error.1 h
    · exact hx.error e h
    · exact hy.error e h

theorem Settles.forM {α : Type} {check : α → Except ValidationError Unit} {rule : Rule} {l : List α}
    {P : α → Prop} (h : ∀ a ∈ l, Settles w (check a) rule (P a)) :
    Settles w (l.forM check) rule (∀ a ∈ l, P a) where
  ok hl a ha := (h a ha).ok (forM_eq_ok hl a ha)
  error e hl := by
    obtain ⟨a, ha, he⟩ := forM_eq_error hl
    exact (h a ha).error e he

theorem settles_checkGvks : Settles w (checkGvks w.resources) .gvks (Rule.gvks.Holds w) where
  ok h := by
    unfold checkGvks at h
    split at h
    next => cases h
    next hc => exact clash?_map_eq_none hc
  error e h := by
    unfold checkGvks at h
    split at h
    next hc =>
      obtain ⟨r, s, hrs, hk, rfl, rfl⟩ := clash?_map_eq_some hc
      obtain rfl := Except.error.inj h
      exact ⟨rfl, r, s, hrs, hk, rfl, rfl, rfl⟩
    next => cases h

theorem settles_checkNames : Settles w (checkNames w.resources) .names w.names.Nodup where
  ok h := by
    unfold checkNames at h
    split at h
    next => cases h
    next hc => exact clash?_map_eq_none hc
  error e h := by
    unfold checkNames at h
    split at h
    next hc =>
      obtain ⟨r, s, hrs, hk, rfl, rfl⟩ := clash?_map_eq_some hc
      obtain rfl := Except.error.inj h
      exact ⟨rfl, r, s, hrs, hk, rfl, rfl, rfl⟩
    next => cases h

theorem mem_forms {r : Resource} {form : String} : form ∈ forms r ↔ r.Takes form := by
  unfold Resource.Takes
  fun_cases forms r with
  | case1 s p h => simp [s, show Text.toLower r.plural = r.singular from h.symm, Resource.singular]
  | case2 s p => simp [s, p, Resource.singular]
  | case3 s p => simp [s, p, Resource.singular, or_comm]

theorem nodup_forms (r : Resource) : (forms r).Nodup := by
  fun_cases forms r with
  | case1 => simp
  | case2 s p h => simpa using h
  | case3 s p h => simpa using Ne.symm h

theorem mem_formClaims {r : Resource} {c : FormKey × String} :
    c ∈ formClaims r ↔ ∃ form, r.Takes form ∧ c = (⟨r.group, r.version, form⟩, r.name) := by
  simp only [formClaims, List.mem_map, mem_forms, eq_comm]

theorem nodup_formClaims (r : Resource) : ((formClaims r).map (·.1)).Nodup := by
  rw [formClaims, List.map_map]
  exact (nodup_forms r).map fun _ _ h => (FormKey.mk.inj h).2.2

theorem settles_checkForms : Settles w (checkForms w.resources) .names
    (w.resources.Pairwise fun r s =>
      r.group = s.group → r.version = s.version → ∀ form, r.Takes form → ¬s.Takes form) where
  ok h := by
    unfold checkForms at h
    split at h
    next => cases h
    next hc =>
      have hn := (clash?_eq_none hc).1
      rw [List.map_flatMap, List.nodup_flatMap] at hn
      refine hn.2.imp fun {r s} hd hg hv form hr hs => ?_
      have hmr := List.mem_map_of_mem (f := Prod.fst) (mem_formClaims.2 ⟨form, hr, rfl⟩)
      have hms := List.mem_map_of_mem (f := Prod.fst) (mem_formClaims.2 ⟨form, hs, rfl⟩)
      rw [← hg, ← hv] at hms
      exact hd hmr hms
  error e h := by
    unfold checkForms at h
    split at h
    next first second hc =>
      obtain ⟨hc, hk⟩ := clash?_eq_some hc
      obtain rfl := Except.error.inj h
      obtain ⟨r, -, hr⟩ | ⟨r, s, hrs, hr, hs⟩ := pair_sublist_flatMap hc
      · have hn : [first.1, second.1].Nodup := (hr.map Prod.fst).nodup (nodup_formClaims r)
        simp [hk] at hn
      · obtain ⟨form, hrf, rfl⟩ := mem_formClaims.1 hr
        obtain ⟨_, hsf, rfl⟩ := mem_formClaims.1 hs
        obtain ⟨hg, hv, rfl⟩ := FormKey.mk.inj hk
        refine ⟨rfl, r, s, hrs, hg, hv, ?_, hrf, hsf, rfl, rfl⟩
        simp only [Resource.groupVersion]
    next => cases h

theorem isPlural_iff {s : String} : isPlural s ↔ IsPlural s := by
  simp [isPlural, IsPlural, or_assoc]

theorem isGroup_iff {s : String} : isGroup s ↔ IsGroup s := by
  simp [isGroup, IsGroup, or_assoc]

theorem settles_checkIdentity {r : Resource} (hr : r ∈ w.resources) :
    Settles w (checkIdentity r) .shapes r.WellShaped :=
  have misshapen {part value : String} (h : r.Misshapen part value) :
      (invalidIdentity r.name part value).rule = .shapes ∧
        (invalidIdentity r.name part value).Describes w := ⟨rfl, r, hr, rfl, h⟩
  .imp (fun ⟨hk, hp, hg, hv, _⟩ => ⟨hk, hp, hg, hv⟩) <|
    .unless isUpperCamel_iff (fun h => misshapen (.kind h)) <|
    .unless isPlural_iff (fun h => misshapen (.plural h)) <|
    .unless isGroup_iff (fun h => misshapen (.group h)) <|
    .unless isKubeVersion_iff (fun h => misshapen (.version h)) .pass

theorem settles_checkMarkers {r : Resource} (hr : r ∈ w.resources) :
    Settles w (checkMarkers r) .shapes
      (r.markerNames.Nodup ∧ ∀ name ∈ r.markerNames, name ∉ generatedMarkers) where
  ok h := by
    unfold checkMarkers at h
    split at h
    next => cases h
    next hc =>
      obtain ⟨hn, ha⟩ := clash?_eq_none hc
      refine ⟨by simpa [Resource.markerNames, Function.comp_def] using hn, fun name hm hg => ?_⟩
      obtain ⟨m, hm', rfl⟩ := List.mem_map.1 hm
      exact ha _ (List.mem_map_of_mem hm') _ (List.mem_map_of_mem hg) rfl
  error e h := by
    unfold checkMarkers at h
    split at h
    next first second hc =>
      obtain rfl := Except.error.inj h
      obtain ⟨hs, hk⟩ := clash?_eq_some hc
      have hs := hs.map (·.1)
      simp only [List.map_cons, List.map_nil, List.map_append, List.map_reverse, List.map_map,
        Function.comp_def, List.map_id', hk] at hs
      refine ⟨rfl, r, hr, rfl, ?_⟩
      obtain hs | ⟨hg, hm⟩ | hs := pair_sublist_append hs
      · exact absurd (hs.nodup (List.nodup_reverse.2 (by decide : generatedMarkers.Nodup))) (by simp)
      · exact .inl ⟨hm, List.mem_reverse.1 hg⟩
      · exact .inr hs
    next => cases h

theorem flatMap_pathClaims : w.resources.flatMap (pathClaims w) =
    w.artifacts.map fun a => ((w.pathOf a).parts, w.pathOf a, a.1.name) := by
  simp only [Workload.artifacts, SProd.sprod, List.product, List.map_flatMap, List.map_map]
  rfl

theorem settles_checkPaths : Settles w (checkPaths w) .paths (Rule.paths.Holds w) where
  ok h := by
    rw [checkPaths, flatMap_pathClaims] at h
    split at h
    next => cases h
    next hc => exact clash?_map_eq_none hc
  error e h := by
    rw [checkPaths, flatMap_pathClaims] at h
    split at h
    next hc =>
      obtain ⟨a, b, hab, hk, rfl, rfl⟩ := clash?_map_eq_some hc
      obtain rfl := Except.error.inj h
      exact ⟨rfl, a, b, hab, hk, rfl, rfl, rfl⟩
    next => cases h

theorem settles_checkDependency {d : Dependency} (hd : d ∈ w.dependencies) :
    Settles w (checkDependency w.resources d) .endpoints
      (d.dependent ∈ w.names ∧ d.target ∈ w.names) := by
  have hb : (w.resources.any (·.name = d.dependent) && w.resources.any (·.name = d.target)) = true ↔
      d.dependent ∈ w.names ∧ d.target ∈ w.names := by
    simp [Workload.names]
  unfold checkDependency
  split
  next h => exact ⟨fun _ => hb.1 h, nofun⟩
  next h =>
    refine ⟨nofun, fun e he => ?_⟩
    obtain rfl := Except.error.inj he
    exact ⟨rfl, d, hd, rfl, rfl, fun hm => h (hb.2 hm)⟩

theorem mem_predicateUses {u : PredicateUse} :
    u ∈ predicateUses w ↔ w.Tells u.predicate u.target u.origin := by
  constructor
  · intro h
    obtain h | h := List.mem_append.1 h
    · obtain ⟨r, hr, rfl⟩ := List.mem_map.1 h
      exact .builtin hr
    · obtain ⟨d, hd, rfl⟩ := List.mem_map.1 h
      exact .declared hd
  · intro h
    cases u
    cases h with
    | builtin hr => exact List.mem_append_left _ (List.mem_map.2 ⟨_, hr, rfl⟩)
    | declared hd => exact List.mem_append_right _ (List.mem_map.2 ⟨_, hd, rfl⟩)

theorem settles_checkPredicates :
    Settles w (checkPredicates [] (predicateUses w)) .readiness (Rule.readiness.Holds w) where
  ok h p t t' o o' ht ht' :=
    checkPredicates_eq_ok h nofun ⟨p, t, o⟩ (mem_predicateUses.2 ht) ⟨p, t', o'⟩
      (mem_predicateUses.2 ht') rfl
  error e h := by
    obtain ⟨u, v, huv, hp, ht, rfl⟩ := checkPredicates_eq_error h
    have hu : u ∈ predicateUses w := huv.subset List.mem_cons_self
    have hv : v ∈ predicateUses w := huv.subset (List.mem_cons_of_mem _ List.mem_cons_self)
    exact ⟨rfl, u.target, v.target, ht, hp ▸ mem_predicateUses.1 hu, mem_predicateUses.1 hv⟩

open ResourceGraph (ofWorkload)

theorem dependsOn_ofWorkload {i j : Nat} : (ofWorkload w).DependsOn i j ↔
    ∃ r s, w.resources[i]? = some r ∧ w.resources[j]? = some s ∧ w.DependsOn r.name s.name := by
  unfold ResourceGraph.DependsOn ResourceGraph.targetsOf ofWorkload
  rw [List.getD_eq_getElem?_getD, List.getElem?_map]
  cases w.resources[i]? with
  | none => simp
  | some r =>
    simp only [Option.map_some, Option.getD_some, ResourceGraph.targetPlaces, List.mem_filter,
      List.mem_range, Option.any_eq_true, List.any_eq_true, Bool.and_eq_true, decide_eq_true_eq]
    constructor
    · rintro ⟨-, s, hs, d, hd, he⟩
      exact ⟨r, s, rfl, hs, d, hd, he⟩
    · rintro ⟨_, s, hr, hs, d, hd, he⟩
      obtain rfl := Option.some.inj hr
      exact ⟨(List.getElem?_eq_some_iff.1 hs).1, s, hs, d, hd, he⟩

theorem inRange_ofWorkload : (ofWorkload w).InRange := by
  intro i j h
  obtain ⟨r, s, hr, hs, -⟩ := dependsOn_ofWorkload.1 h
  exact ⟨(List.getElem?_eq_some_iff.1 hr).1, (List.getElem?_eq_some_iff.1 hs).1⟩

theorem nameOf_ofWorkload {i : Nat} {r : Resource} (h : w.resources[i]? = some r) :
    (ofWorkload w).nameOf i = r.name := by
  simp [ResourceGraph.nameOf, ofWorkload, h]

theorem DependsOn.names {i j : Nat} (h : (ofWorkload w).DependsOn i j) :
    w.DependsOn ((ofWorkload w).nameOf i) ((ofWorkload w).nameOf j) := by
  obtain ⟨r, s, hr, hs, h⟩ := dependsOn_ofWorkload.1 h
  rwa [nameOf_ofWorkload hr, nameOf_ofWorkload hs]

theorem getElem?_idxOf_names {name : String} (h : name ∈ w.names) :
    ∃ r, w.resources[w.names.idxOf name]? = some r ∧ r.name = name := by
  have hn : w.names[w.names.idxOf name]? = some name := List.getElem?_idxOf h
  rw [Workload.names, List.getElem?_map, Option.map_eq_some_iff] at hn
  exact hn

theorem Workload.DependsOn.places (he : Rule.endpoints.Holds w) {a b : String} (h : w.DependsOn a b) :
    (ofWorkload w).DependsOn (w.names.idxOf a) (w.names.idxOf b) := by
  obtain ⟨d, hd, rfl, rfl⟩ := h
  obtain ⟨r, hr, hrn⟩ := getElem?_idxOf_names (he d hd).1
  obtain ⟨s, hs, hsn⟩ := getElem?_idxOf_names (he d hd).2
  exact dependsOn_ofWorkload.2 ⟨r, s, hr, hs, d, hd, hrn.symm, hsn.symm⟩

theorem acyclic_ofWorkload_iff (he : Rule.endpoints.Holds w) :
    (∀ i, ¬TransGen (ofWorkload w).DependsOn i i) ↔ Rule.acyclic.Holds w := by
  constructor
  · intro h name hn
    exact h (w.names.idxOf name) (hn.lift (w.names.idxOf ·) fun _ _ hab => hab.places he)
  · intro h i hi
    exact h _ (hi.lift (ofWorkload w).nameOf fun _ _ => DependsOn.names)

theorem names_getElem? {i : Nat} (h : i < (ofWorkload w).size) :
    w.names[i]? = some ((ofWorkload w).nameOf i) := by
  have hr : w.resources[i]? = some w.resources[i] := List.getElem?_eq_getElem h
  rw [nameOf_ofWorkload hr, Workload.names, List.getElem?_map, hr, Option.map_some]

theorem nameOf_inj (hn : w.names.Nodup) {i j : Nat} (hi : i < (ofWorkload w).size)
    (hj : j < (ofWorkload w).size) (h : (ofWorkload w).nameOf i = (ofWorkload w).nameOf j) : i = j := by
  have hl : i < w.names.length := by
    rw [Workload.names, List.length_map]
    exact hi
  refine (List.getElem?_inj hl hn).1 ?_
  rw [names_getElem? hi, names_getElem? hj, h]

theorem describes_cyclicDependency (hn : w.names.Nodup) {names : List String}
    (h : (ofWorkload w).cycle? = some names) : (cyclicDependency names).Describes w := by
  obtain ⟨c, hc, rfl⟩ := ResourceGraph.isCycle_of_cycle? inRange_ofWorkload h
  obtain ⟨i, mid, rfl⟩ := hc.ends
  have hm := List.isChain_map_of_isChain (ofWorkload w).nameOf (fun _ _ => DependsOn.names) hc.chain
  refine ⟨hm, ⟨(ofWorkload w).nameOf i, mid.map (ofWorkload w).nameOf, by simp⟩, ?_⟩
  have hr := inRange_ofWorkload.lt_size hc.chain
  rw [← List.map_tail]
  exact hc.nodup.map_on fun j hj k hk e => nameOf_inj hn (hr j hj) (hr k hk) e

theorem Resource.Misshapen.not_wellShaped {r : Resource} {part value : String} (h : r.Misshapen part value) :
    ¬r.WellShaped := by
  intro hw
  cases h with
  | kind h => exact h hw.kind
  | plural h => exact h hw.plural
  | group h => exact h hw.group
  | version h => exact h hw.version

theorem ValidationError.Describes.not_holds {e : ValidationError} (h : e.Describes w) :
    ¬e.rule.Holds w := by
  cases e with
  | duplicateGvk =>
    obtain ⟨r, s, hrs, rfl, hs, -⟩ := h
    exact not_nodup_map_of_pair hrs hs.symm
  | duplicateName =>
    obtain ⟨r, s, hrs, rfl, hs, -⟩ := h
    exact fun hn => not_nodup_map_of_pair hrs hs.symm hn.1
  | namingCollision =>
    obtain ⟨r, s, hrs, hg, hv, -, hr, hs, -⟩ := h
    intro hn
    exact List.pairwise_pair.1 (hn.2.sublist hrs) hg hv _ hr hs
  | invalidIdentity =>
    obtain ⟨r, hr, -, hm⟩ := h
    exact fun hs => hm.not_wellShaped (hs.1 r hr)
  | duplicateMarker =>
    obtain ⟨r, hr, -, ⟨hm, hg⟩ | hm⟩ := h
    · exact fun hs => (hs.2 r hr).2 _ hm hg
    · intro hs
      simpa using hm.nodup (hs.2 r hr).1
  | artifactCollision =>
    obtain ⟨a, b, hab, ha, rfl, -⟩ := h
    exact not_nodup_map_of_pair hab ha
  | unknownDependency =>
    obtain ⟨d, hd, rfl, rfl, hm⟩ := h
    exact fun he => hm (he d hd)
  | duplicateReadiness =>
    obtain ⟨t, t', ht, h₁, h₂⟩ := h
    exact fun hr => ht (hr _ _ _ _ _ h₁ h₂)
  | cyclicDependency =>
    obtain ⟨hc, ⟨name, mid, rfl⟩, -⟩ := h
    exact fun ha => ha name (ResourceGraph.transGen_of_isChain hc)

theorem Rule.rank_inj {rule rule' : Rule} (h : rule.rank = rule'.rank) : rule = rule' := by
  cases rule <;> cases rule' <;> first | rfl | cases h

def RulesBelow (w : Workload) (n : Nat) : Prop := ∀ rule, rule.rank < n → Rule.Holds w rule

theorem RulesBelow.succ {rule : Rule} (h : RulesBelow w rule.rank) (hr : rule.Holds w) :
    RulesBelow w (rule.rank + 1) := by
  intro rule' hlt
  obtain hlt | he := Nat.lt_succ_iff_lt_or_eq.1 hlt
  · exact h rule' hlt
  · rwa [Rule.rank_inj he]

/-- A computation that checks all rules but those below `n`, in the order of their ranks. -/
structure Decides {α : Type} (w : Workload) (n : Nat) (x : Except ValidationError α) : Prop where
  ok : ∀ a, x = .ok a → ∀ rule, Rule.Holds w rule
  error : ∀ e, x = .error e → e.Describes w ∧ RulesBelow w e.rule.rank

theorem Settles.then {α : Type} {check : Except ValidationError Unit} {rule : Rule}
    {k : Except ValidationError α} (h : Settles w check rule (rule.Holds w))
    (hb : RulesBelow w rule.rank) (hk : RulesBelow w (rule.rank + 1) → Decides w (rule.rank + 1) k) :
    Decides w rule.rank (check >>= fun _ => k) where
  ok a ha := by
    obtain ⟨_, hc, ha⟩ := bind_eq_ok.1 ha
    exact (hk (hb.succ (h.ok hc))).ok a ha
  error e he := by
    obtain he | ⟨_, hc, he⟩ := bind_eq_error.1 he
    · obtain ⟨rfl, hd⟩ := h.error e he
      exact ⟨hd, hb⟩
    · exact (hk (hb.succ (h.ok hc))).error e he

theorem decides_cycle? (h : RulesBelow w 7) :
    Decides w 7 (match (ofWorkload w).cycle? with
      | some names => .error (cyclicDependency names)
      | none => pure (ofWorkload w).ordered) := by
  have he : Rule.endpoints.Holds w := h .endpoints (by decide)
  split
  next names hc =>
    refine ⟨nofun, fun e he => ?_⟩
    obtain rfl := Except.error.inj he
    exact ⟨describes_cyclicDependency (h .names (by decide)).1 hc, h⟩
  next hc =>
    have ha := (acyclic_ofWorkload_iff he).1 ((ResourceGraph.cycle?_eq_none_iff inRange_ofWorkload).1 hc)
    have hall : RulesBelow w (Rule.acyclic.rank + 1) := h.succ ha
    exact ⟨fun _ _ rule => hall rule (by cases rule <;> decide), nofun⟩

theorem decides_validate (w : Workload) : Decides w 1 w.validate := by
  unfold Workload.validate ResourceGraph.build
  simp only [bind_assoc, pure_bind]
  refine settles_checkGvks.then (fun rule h => absurd h (by cases rule <;> decide)) fun h₁ => ?_
  rw [← bind_assoc]
  refine (settles_checkNames.and settles_checkForms).then h₁ fun h₂ => ?_
  rw [← bind_assoc]
  refine ((Settles.forM fun _ => settles_checkIdentity).and
    (Settles.forM fun _ => settles_checkMarkers)).then h₂ fun h₃ => ?_
  refine settles_checkPaths.then h₃ fun h₄ => ?_
  refine (Settles.forM fun _ => settles_checkDependency).then h₄ fun h₅ => ?_
  exact settles_checkPredicates.then h₅ decides_cycle?

/-- Validation accepts a workload if and only if all rules hold; else it reports a breach of the first
rule that does not hold. -/
theorem Workload.validate_accepts_exactly_the_rules (w : Workload) :
    ((∃ order, w.validate = .ok order) ↔ ∀ rule, Rule.Holds w rule) ∧
    ∀ e, w.validate = .error e → e.Describes w ∧ ¬e.rule.Holds w ∧
      ∀ rule, rule.rank < e.rule.rank → Rule.Holds w rule := by
  have ⟨hok, herr⟩ := decides_validate w
  refine ⟨⟨fun ⟨order, h⟩ => hok order h, fun h => ?_⟩, fun e he => ?_⟩
  · cases hv : w.validate with
    | ok order => exact ⟨order, rfl⟩
    | error e => exact absurd (h e.rule) (herr e hv).1.not_holds
  · have ⟨hd, hb⟩ := herr e he
    exact ⟨hd, hd.not_holds, hb⟩

theorem validate_accepts_exactly_the_rules_of_one_waiting_for_itself :
    let gate : Resource :=
      ⟨"gate", .component, "net", "v1", "Gate", "gates", true, [], [], [], none, false, "a.yaml"⟩
    let w : Workload :=
      ⟨"w", "a.yaml", "r", ⟨"net", "v1", none, true⟩, [gate], [⟨"gate", "gate", "GateUp"⟩]⟩
    w.validate = .error (.cyclicDependency ["gate", "gate"]) ∧ ¬Rule.acyclic.Holds w ∧
      ∀ rule, rule.rank < 7 → Rule.Holds w rule := by
  intro gate w
  have hc : (match w.validate with | .error e => some e | .ok _ => none) =
      some (.cyclicDependency ["gate", "gate"]) := by decide
  have h : w.validate = .error (.cyclicDependency ["gate", "gate"]) := by
    split at hc
    next e he => exact he.trans (congrArg _ (Option.some.inj hc))
    next => cases hc
  exact ⟨h, ((Workload.validate_accepts_exactly_the_rules w).2 _ h).2⟩

end OperatorScaffold

import OperatorScaffold.Proofs.Graph.Order
import OperatorScaffold.Proofs.Template.Mark
import OperatorScaffold.Proofs.Template.Quiet
/-!
The predicates that tell readiness. A resource defines its own and those that its dependents name, a
predicate belongs to one resource only, and a controller calls no others.
-/

namespace OperatorScaffold

open Marker Text Naming Validation

namespace Template

section Distinct

variable {α : Type} [BEq α] [LawfulBEq α] {seen l : List α} {a : α}

theorem mem_distinct : a ∈ distinct seen l ↔ a ∈ l ∧ a ∉ seen := by
  induction l generalizing seen with
  | nil => simp [distinct]
  | cons b l ih =>
    rw [distinct]
    split
    next hb =>
      have hb : b ∈ seen := List.contains_iff_mem.1 hb
      rw [ih, List.mem_cons]
      constructor
      · rintro ⟨hl, hs⟩
        exact ⟨.inr hl, hs⟩
      · rintro ⟨rfl | hl, hs⟩
        · exact absurd hb hs
        · exact ⟨hl, hs⟩
    next hb =>
      have hb : b ∉ seen := fun h => hb (List.contains_iff_mem.2 h)
      rw [List.mem_cons, ih, List.mem_cons, List.mem_cons, not_or]
      constructor
      · rintro (rfl | ⟨hl, -, hs⟩)
        · exact ⟨.inl rfl, hb⟩
        · exact ⟨.inr hl, hs⟩
      · rintro ⟨rfl | hl, hs⟩
        · exact .inl rfl
        · by_cases he : a = b
          · exact .inl he
          · exact .inr ⟨hl, he, hs⟩

theorem nodup_distinct (seen l : List α) : (distinct seen l).Nodup := by
  induction l generalizing seen with
  | nil => exact List.nodup_nil
  | cons b l ih =>
    rw [distinct]
    split
    next => exact ih seen
    next => exact List.nodup_cons.2 ⟨fun h => (mem_distinct.1 h).2 List.mem_cons_self, ih (b :: seen)⟩

end Distinct

variable {w : Workload} {r t : Resource} {d : Dependency} {a : Awaited} {p name : String}

theorem mem_predicatesOf : p ∈ predicatesOf w r ↔
    p = builtinPredicate r.kind ∨ ∃ d ∈ w.dependencies, d.target = r.name ∧ d.readiness = p := by
  simp [predicatesOf, mem_distinct, Workload.dependentsOf, and_assoc]

theorem mem_awaitedBy : a ∈ awaitedBy w name ↔
    ∃ d ∈ w.dependencies, d.dependent = name ∧ ∃ t, w.resource? d.target = some t ∧
      a = ⟨t.name, t.kind, w.fullGroup t, t.plural, d.readiness⟩ := by
  simp [awaitedBy, mem_distinct, Workload.dependenciesOf, awaited?, and_assoc, eq_comm]

theorem mem_of_resource? (h : w.resource? name = some t) : t ∈ w.resources ∧ t.name = name :=
  ⟨List.mem_of_find?_eq_some h, by simpa using List.find?_some h⟩

/-- What a resource defines tells its readiness. -/
theorem tells_of_mem_predicatesOf (hr : r ∈ w.resources) (hp : p ∈ predicatesOf w r) :
    ∃ origin, w.Tells p r.name origin := by
  obtain rfl | ⟨d, hd, ht, rfl⟩ := mem_predicatesOf.1 hp
  · exact ⟨_, .builtin hr⟩
  · rw [← ht]
    exact ⟨_, .declared hd⟩

theorem nodup_predicates (hnames : w.names.Nodup) (hready : Rule.readiness.Holds w) :
    (w.resources.flatMap (predicatesOf w)).Nodup := by
  refine List.nodup_flatMap.2 ⟨fun r _ => nodup_distinct _ _, ?_⟩
  have hne : w.resources.Pairwise fun r s => r.name ≠ s.name := List.pairwise_map.1 hnames
  refine hne.imp_of_mem fun {r s} hr hs hne p hpr hps => hne ?_
  obtain ⟨_, hr⟩ := tells_of_mem_predicatesOf hr hpr
  obtain ⟨_, hs⟩ := tells_of_mem_predicatesOf hs hps
  exact hready _ _ _ _ _ hr hs

theorem exists_defining (ha : a ∈ awaitedBy w name) :
    ∃ t ∈ w.resources, t.name = a.name ∧ a.readiness ∈ predicatesOf w t := by
  obtain ⟨d, hd, -, t, ht, rfl⟩ := mem_awaitedBy.1 ha
  obtain ⟨ht, hn⟩ := mem_of_resource? ht
  exact ⟨t, ht, rfl, mem_predicatesOf.2 (.inr ⟨d, hd, hn.symm, rfl⟩)⟩

theorem exists_awaited (hnames : w.names.Nodup) (hends : Rule.endpoints.Holds w) (hd : d ∈ w.dependencies) :
    ∃ a ∈ awaitedBy w d.dependent, a.name = d.target ∧ a.readiness = d.readiness := by
  obtain ⟨t, ht, hn⟩ := List.mem_map.1 (hends d hd).2
  have hfound : w.resource? d.target = some t := hn ▸ Workload.resource?_name hnames ht
  exact ⟨_, mem_awaitedBy.2 ⟨d, hd, rfl, t, hfound, rfl⟩, hn, rfl⟩

/-- The line that starts the definition of a predicate. -/
def definition : Mark := ⟨"func ", "(ctx context.Context, c client.Client, req ctrl.Request) (bool, error) \x7b"⟩

/-- The line that calls a predicate. -/
def call : Mark := ⟨"\tif ready, err := dependencies.", "(ctx, r.Client, req); err != nil \x7b"⟩

theorem definition_start : "func ".toList <+: definition.start.toList := List.prefix_rfl

theorem call_start : ['\t', 'i', 'f', ' ', 'r'] <+: call.start.toList := by decide

variable {c : Context} {kind : String}

open Mark

theorem found_predicateLines (hk : OneLine kind) (hp : OneLine p) :
    (predicateLines kind p).flatMap definition.found = [p] := by
  have hcomment : definition.found (s!"// {p} reports whether a {kind} is ready for the resources that depend on it.") = [] := by
    simp only [String.append_assoc, toString_text]
    refine found_line definition_start ?_ rfl
    simp only [oneLine_append, hp, hk, true_and]
    exact ⟨oneLine_fixed rfl, oneLine_fixed rfl⟩
  have hstart : definition.found (s!"func {p}(ctx context.Context, c client.Client, req ctrl.Request) (bool, error) \x7b") = [p] := by
    refine found_between ?_
    exact oneLine_append.2 ⟨oneLine_append.2 ⟨oneLine_fixed rfl, hp⟩, oneLine_fixed rfl⟩
  have hreturn : definition.found "\treturn true, nil" = [] := found_fixed definition_start rfl
  have hend : definition.found "\x7d" = [] := found_fixed definition_start rfl
  have hempty : definition.found "" = [] := found_blank definition_start rfl
  simp only [predicateLines, List.flatMap_cons, List.flatMap_nil, hcomment, hstart, hreturn, hend, hempty]
  rfl

theorem found_dependencyLines (hk : OneLine c.resource.kind) (hp : ∀ p ∈ c.predicates, OneLine p)
    (hb : definition.found c.boilerplate = []) :
    (dependencyLines c).flatMap definition.found = c.predicates := by
  have hhead : [c.boilerplate, "", "package dependencies", "", "import (", "\t\"context\"", "",
      "\tctrl \"sigs.k8s.io/controller-runtime\"", "\t\"sigs.k8s.io/controller-runtime/pkg/client\"",
      ")"].flatMap definition.found = [] := by
    have hd := definition_start
    have hblank : definition.found "" = [] := found_blank hd rfl
    refine flatMap_found_eq_nil ?_
    simp only [List.forall_mem_cons]
    exact ⟨hb, hblank, found_fixed hd rfl, hblank, found_fixed hd rfl, found_fixed hd rfl, hblank,
      found_fixed hd rfl, found_fixed hd rfl, found_fixed hd rfl, List.forall_mem_nil _⟩
  have hbody : (c.predicates.flatMap (predicateLines c.resource.kind)).flatMap definition.found =
      c.predicates := by
    rw [List.flatMap_assoc]
    conv => rhs; rw [← List.flatMap_singleton' c.predicates]
    exact List.flatMap_congr fun p hp' => found_predicateLines hk (hp p hp')
  rw [dependencyLines, List.flatMap_append, hhead, hbody, List.nil_append]

/-- The file of the dependencies ends with the definition of a predicate. -/
theorem getLast?_dependencyLines (h : c.predicates ≠ []) : (dependencyLines c).getLast? = some "\x7d" := by
  obtain ⟨ps, p, hps⟩ := (List.eq_nil_or_concat' c.predicates).resolve_left h
  rw [dependencyLines, hps, List.flatMap_append, List.flatMap_singleton, ← List.append_assoc,
    List.getLast?_append]
  rfl

theorem found_dependencies (hk : OneLine c.resource.kind) (hp : ∀ p ∈ c.predicates, OneLine p)
    (hne : c.predicates ≠ []) (hb : definition.found c.boilerplate = []) :
    definition.found (withOneNewline (joinLines (dependencyLines c))) = c.predicates := by
  have hlast : (dependencyLines c).getLast? = some (.ofList ([] ++ ['\x7d'])) := getLast?_dependencyLines hne
  rw [found_rendered (found_blank definition_start rfl) hlast (by decide), found_dependencyLines hk hp hb]

theorem found_waitLines (hk : OneLine a.kind) (hr : OneLine a.readiness) :
    (waitLines a).flatMap call.found = [a.readiness] := by
  have hcall : call.found (s!"\tif ready, err := dependencies.{a.readiness}(ctx, r.Client, req); err != nil \x7b") =
      [a.readiness] := by
    refine found_between ?_
    exact oneLine_append.2 ⟨oneLine_append.2 ⟨oneLine_fixed rfl, hr⟩, oneLine_fixed rfl⟩
  have hreturn : call.found (s!"\t\treturn ctrl.Result\x7b\x7d, fmt.Errorf(\"checking {a.kind} readiness: %w\", err)") = [] := by
    simp only [String.append_assoc, toString_text]
    exact found_line call_start (oneLine_append.2 ⟨hk, oneLine_fixed rfl⟩) rfl
  have helse : call.found "\t\x7d else if !ready \x7b" = [] := found_fixed call_start rfl
  have hlog : call.found (s!"\t\tlogger.Info(\"waiting for dependency\", \"dependency\", \"{a.kind}\")") = [] := by
    simp only [String.append_assoc, toString_text]
    exact found_line call_start (oneLine_append.2 ⟨hk, oneLine_fixed rfl⟩) rfl
  have hagain : call.found "\t\treturn ctrl.Result\x7bRequeue: true\x7d, nil" = [] :=
    found_fixed call_start rfl
  have hend : call.found "\t\x7d" = [] := found_fixed call_start rfl
  have hempty : call.found "" = [] := found_blank call_start rfl
  simp only [waitLines, List.flatMap_cons, List.flatMap_nil, hcall, hreturn, helse, hlog, hagain, hend, hempty]
  rfl

theorem found_accessLine (hf : OneLine a.fullGroup) (hp : OneLine a.plural) : call.found (accessLine a) = [] := by
  unfold accessLine
  simp only [String.append_assoc, toString_text]
  refine found_line call_start ?_ rfl
  simp only [oneLine_append, hf, hp, true_and]
  exact ⟨oneLine_fixed rfl, oneLine_fixed rfl⟩

/-- What goes into the lines of a controller is of one line. -/
structure Context.OneLined (c : Context) : Prop where
  repository : OneLine c.repository
  kind : OneLine c.resource.kind
  group : OneLine c.resource.group
  plural : OneLine c.resource.plural
  version : OneLine c.resource.version
  fullGroup : OneLine c.resource.fullGroup
  predicates : ∀ p ∈ c.predicates, OneLine p
  dependencies : ∀ a ∈ c.dependencies,
    OneLine a.kind ∧ OneLine a.plural ∧ OneLine a.fullGroup ∧ OneLine a.readiness

theorem Context.OneLined.apiAlias (h : c.OneLined) : OneLine c.resource.apiAlias :=
  oneLine_append.2 ⟨Identity.oneLine_package c.resource, h.version⟩

theorem found_waits (h : c.OneLined) :
    (c.dependencies.flatMap waitLines).flatMap call.found = c.dependencies.map (·.readiness) := by
  rw [List.flatMap_assoc, List.map_eq_flatMap]
  refine List.flatMap_congr fun a ha => ?_
  obtain ⟨hk, -, -, hr⟩ := h.dependencies a ha
  exact found_waitLines hk hr

theorem found_accesses (h : c.OneLined) : (c.dependencies.map accessLine).flatMap call.found = [] := by
  refine flatMap_found_eq_nil (List.forall_mem_map.2 fun a ha => ?_)
  obtain ⟨-, hp, hf, -⟩ := h.dependencies a ha
  exact found_accessLine hf hp

theorem found_controllerLines (h : c.OneLined) (hb : call.found c.boilerplate = []) :
    (controllerLines c).flatMap call.found = c.dependencies.map (·.readiness) := by
  have hc := call_start
  have hblank : call.found "" = [] := found_blank hc rfl
  have hkind := h.kind
  have hapi := h.apiAlias
  have hfmt : call.found "\t\"fmt\"" = [] := found_fixed hc rfl
  have hinternal : call.found s!"\t\"{c.repository}/internal/dependencies\"" = [] := by
    simp only [String.append_assoc, toString_text]
    exact found_line call_start (oneLine_append.2 ⟨h.repository, oneLine_fixed rfl⟩) rfl
  have himport : call.found s!"\t{c.resource.apiAlias} \"{c.repository}/apis/{c.resource.group}/{c.resource.version}\"" = [] := by
    refine found_line_end ?_ rfl
    simp only [oneLine_append, toString_text, hapi, h.repository, h.group, h.version, and_true]
    exact ⟨⟨⟨oneLine_fixed rfl, oneLine_fixed rfl⟩, oneLine_fixed rfl⟩, oneLine_fixed rfl⟩
  unfold controllerLines
  dsimp only
  simp only [List.flatMap_append, found_waits h, found_accesses h, flatMap_found_unless hfmt,
    flatMap_found_unless hinternal, List.append_nil]
  rw [flatMap_found_eq_nil, flatMap_found_eq_nil, flatMap_found_eq_nil, flatMap_found_eq_nil,
    flatMap_found_eq_nil, List.append_nil]
  · rfl
  all_goals simp only [List.forall_mem_cons, String.append_assoc, toString_text] at himport ⊢
  · refine ⟨hblank, found_line hc ?_ rfl, hblank, found_fixed hc rfl, found_fixed hc rfl, found_fixed hc rfl,
      found_fixed hc rfl, found_fixed hc rfl, hblank, found_fixed hc rfl, found_fixed hc rfl,
      found_fixed hc rfl, hblank, found_fixed hc rfl, found_line hc ?_ rfl, found_fixed hc rfl,
      found_line hc ?_ rfl, found_fixed hc rfl, found_fixed hc rfl, List.forall_mem_nil _⟩
    all_goals simp only [oneLine_append, hkind, hapi, true_and]
    all_goals and_intros
    all_goals exact oneLine_fixed rfl
  · refine ⟨hblank, found_line hc ?_ rfl, found_line hc ?_ rfl, found_fixed hc rfl, hblank,
      found_line hc ?_ rfl, found_fixed hc rfl, found_fixed hc rfl, found_fixed hc rfl, List.forall_mem_nil _⟩
    all_goals simp only [oneLine_append, hkind, hapi, true_and, and_true]
    all_goals exact oneLine_fixed rfl
  · refine ⟨found_fixed hc rfl, hblank, found_line hc ?_ rfl, found_line hc ?_ rfl, found_fixed hc rfl,
      found_fixed hc rfl, found_fixed hc rfl, hblank, found_line hc ?_ rfl, found_line hc ?_ rfl,
      List.forall_mem_nil _⟩
    all_goals simp only [oneLine_append, hkind, h.fullGroup, h.plural, true_and]
    all_goals and_intros
    all_goals exact oneLine_fixed rfl
  · exact ⟨hblank, found_fixed hc rfl, found_fixed hc rfl, found_fixed hc rfl, found_fixed hc rfl, hblank,
      himport, List.forall_mem_nil _⟩
  · exact ⟨hb, hblank, found_line hc (Identity.oneLine_package _) rfl, hblank, found_fixed hc rfl,
      found_fixed hc rfl, List.forall_mem_nil _⟩

theorem found_controller (h : c.OneLined) (hb : call.found c.boilerplate = []) :
    call.found (withOneNewline (joinLines (controllerLines c))) = c.dependencies.map (·.readiness) := by
  have hlast : (controllerLines c).getLast? = some (.ofList ([] ++ ['\x7d'])) := by
    unfold controllerLines
    dsimp only
    rw [List.getLast?_append]
    rfl
  rw [found_rendered (found_blank call_start rfl) hlast (by decide), found_controllerLines h hb]

end Template

/-- The texts of a workload that validation does not look at are of one line. -/
structure Workload.OneLined (w : Workload) : Prop where
  repository : OneLine w.repository
  domain : ∀ d ∈ w.options.domain, OneLine d
  readiness : ∀ d ∈ w.dependencies, OneLine d.readiness

namespace Workload

open Template

variable {w : Workload} {r : Resource} {order : List Resource}

theorem oneLine_fullGroup (hd : ∀ d ∈ w.options.domain, OneLine d) (hg : OneLine r.group) :
    OneLine (w.fullGroup r) := by
  unfold fullGroup
  split
  next d h =>
    split
    · exact hg
    · exact oneLine_append.2 ⟨oneLine_append.2 ⟨hg, oneLine_fixed rfl⟩, hd d h⟩
  next => exact hg

theorem OneLined.context (h : w.OneLined) (hshaped : ∀ r ∈ w.resources, r.WellShaped)
    (hr : r ∈ w.resources) (b : String) : (Context.of w r b).OneLined where
  repository := h.repository
  kind := (hshaped r hr).kind.oneLine
  group := (hshaped r hr).group.oneLine
  plural := (hshaped r hr).plural.oneLine
  version := (hshaped r hr).version.oneLine
  fullGroup := oneLine_fullGroup h.domain (hshaped r hr).group.oneLine
  predicates p hp := by
    obtain rfl | ⟨d, hd, -, rfl⟩ := mem_predicatesOf.1 hp
    · exact oneLine_append.2 ⟨(hshaped r hr).kind.oneLine, oneLine_fixed rfl⟩
    · exact h.readiness d hd
  dependencies a ha := by
    obtain ⟨d, hd, -, t, ht, rfl⟩ := mem_awaitedBy.1 ha
    have hshape := hshaped t (mem_of_resource? ht).1
    exact ⟨hshape.kind.oneLine, hshape.plural.oneLine, oneLine_fullGroup h.domain hshape.group.oneLine,
      h.readiness d hd⟩

end Workload

end OperatorScaffold

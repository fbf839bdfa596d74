import OperatorScaffold.Proofs.Graph.Agreement
import OperatorScaffold.Proofs.Scaffold.Run
import OperatorScaffold.Proofs.Template.Readiness
/-!
What a run tells of readiness. A file of checks is written once and then belongs to the user; of one that is
there already the run tells which predicates it lacks.
-/

namespace OperatorScaffold

open ArtifactKind Template Workspace
open scoped List

theorem Text.occursIn_iff {needle cs : List Char} : occursIn needle cs ↔ needle <:+: cs := by
  induction cs with
  | nil => simp [occursIn]
  | cons c cs ih => simp [occursIn, List.infix_cons_iff, ih]

namespace Template

/-- The definition of a predicate starts somewhere in a text. -/
def Defines (text predicate : String) : Prop := ("func " ++ predicate ++ "(").toList <:+: text.toList

variable {c : Context} {p text : String} {ls : List String}

theorem contains_iff_defines : Text.contains text s!"func {p}(" ↔ Defines text p := Text.occursIn_iff

theorem Defines.of_line {l : String} (h : Defines l p) (hl : l ∈ ls) : Defines (String.join ls) p := by
  rw [Defines, String.toList_join]
  exact List.IsInfix.trans h (List.infix_of_mem_flatten (List.mem_map_of_mem hl))

theorem exists_defines (kind : String) : ∃ l ∈ predicateLines kind p, Defines (l ++ "\n") p := by
  refine ⟨s!"func {p}(ctx context.Context, c client.Client, req ctrl.Request) (bool, error) \x7b", ?_, [],
    "ctx context.Context, c client.Client, req ctrl.Request) (bool, error) \x7b\n".toList, ?_⟩
  · simp [predicateLines]
  simp only [toString_text, String.toList_append, List.append_assoc, List.nil_append]
  rfl

/-- A file that is made by the built-in template defines all that is asked of it. -/
theorem defines_rendered (hp : p ∈ c.predicates)
    (h : Registry.builtin.render ArtifactKind.dependencies.template c = .ok text) : Defines text p := by
  have hclosed : (dependencyLines c).getLast?.any fun l => l.toList.getLast?.any fun c => !Text.isBlank c := by
    rw [getLast?_dependencyLines (List.ne_nil_of_mem hp)]
    decide
  obtain ⟨l, hl, hdef⟩ := exists_defines (p := p) c.resource.kind
  obtain rfl := Except.ok.inj ((render_builtin .dependencies c).symm.trans h)
  change Defines (withOneNewline (joinLines (dependencyLines c))) p
  rw [rendered_of_closed hclosed]
  refine hdef.of_line (List.mem_map.2 ⟨l, ?_, rfl⟩)
  exact List.mem_append_right _ (List.mem_flatMap.2 ⟨p, hp, hl⟩)

end Template

namespace Workspace

variable {s s' mid : Workspace} {p : Path}

theorem Makes.notices {ways : Path → Prop} (h : Makes ways s s') : s'.notices = s.notices := by
  induction h with
  | still => rfl
  | made _ _ _ _ ih => exact ih

theorem writeText_notices {text : String} {r : Except (Path × FileError) Unit}
    (h : writeText p text s = (r, s')) : s'.notices = s.notices := by
  obtain ⟨mid, hm, ⟨e, -, rfl⟩ | ⟨-, d, n, -, rfl⟩⟩ := writeText_spec h
  · exact hm.notices
  · exact hm.notices

/-- What is told between two workspaces of predicates that files lack. -/
def Tells (s s' : Workspace) (P : Path → String → Prop) : Prop :=
  ∃ told, s'.notices = s.notices ++ told ∧ ∀ p q, .missingPredicate p q ∈ told ↔ P p q

theorem Tells.trans {P Q : Path → String → Prop} (h : s.Tells mid P) (h' : mid.Tells s' Q) :
    s.Tells s' fun p q => P p q ∨ Q p q := by
  obtain ⟨told, hn, hP⟩ := h
  obtain ⟨told', hn', hQ⟩ := h'
  refine ⟨told ++ told', by rw [hn', hn, List.append_assoc], fun p q => ?_⟩
  rw [List.mem_append, hP, hQ]

theorem Tells.congr {P Q : Path → String → Prop} (h : s.Tells s' P) (hPQ : ∀ p q, P p q ↔ Q p q) :
    s.Tells s' Q := by
  obtain ⟨told, hn, hP⟩ := h
  exact ⟨told, hn, fun p q => (hP p q).trans (hPQ p q)⟩

theorem Tells.of_notices (h : s'.notices = s.notices) : s.Tells s' fun _ _ => False :=
  ⟨[], by rw [h, List.append_nil], by simp⟩

theorem readText_of_locate {q : Place} {text : String} {m : Nat} (h : s.locate p = .ok (q, .file (.text text) m)) :
    s.readText p = .ok text := by
  rw [readText, h]

theorem readText_of_locate_eq {q : Place} {e : Entry} (h : s.locate p = .ok (q, e)) (h' : s'.locate p = .ok (q, e)) :
    s'.readText p = s.readText p := by
  rw [readText, readText, h, h']

end Workspace

namespace Artifact

variable {a : Artifact} {g : Registry} {m : WriteMode} {c : Context} {s s' : Workspace}

theorem scaffold_notices {outcome : WriteOutcome} (h : a.scaffold g m c s = (.ok outcome, s')) :
    ∃ lost : List String, s'.notices = s.notices ++ lost.map (.droppedRegion a.destination) := by
  obtain ⟨_, -, he, -⟩ | ⟨v, -, hp⟩ := scaffold_cases h
  · cases he
  · cases hp with
    | idle => exact ⟨v.lost, rfl⟩
    | written _ _ hw => exact ⟨v.lost, writeText_notices hw⟩

end Artifact

namespace Workload

variable {w : Workload} {g : Registry} {o : ScaffoldOptions} {header : String} {s s' : Workspace}
  {order : List Resource} {x : Resource × ArtifactKind} {p : Path} {q : String}

/-- The path of the file of checks of a resource. -/
def checksAt (w : Workload) (root : Path) (r : Resource) : Path := (w.artifactOf root (r, .dependencies)).destination

/-- The file of checks of a resource can be read and does not define a predicate that is asked of it. -/
def Lacks (w : Workload) (root : Path) (s : Workspace) (x : Resource × ArtifactKind) (p : Path) (q : String) : Prop :=
  x.2 = .dependencies ∧ p = (w.artifactOf root x).destination ∧ q ∈ predicatesOf w x.1 ∧
    ∃ text, s.readText p = .ok text ∧ ¬Defines text q

theorem mem_missingPredicates {p' : Path} {qs : List String} : .missingPredicate p q ∈ missingPredicates s p' qs ↔
    p = p' ∧ q ∈ qs ∧ ∃ text, s.readText p = .ok text ∧ ¬Defines text q := by
  unfold missingPredicates
  cases hr : s.readText p' with
  | error e =>
    refine iff_of_false List.not_mem_nil ?_
    rintro ⟨rfl, -, text, ht, -⟩
    rw [hr] at ht
    cases ht
  | ok text =>
    simp only [List.mem_map, List.mem_filter, Notice.missingPredicate.injEq, Bool.not_eq_true', ← Bool.not_eq_true,
      contains_iff_defines]
    constructor
    · rintro ⟨_, ⟨hq, hd⟩, rfl, rfl⟩
      exact ⟨rfl, hq, text, hr, hd⟩
    · rintro ⟨rfl, hq, text', ht, hd⟩
      obtain rfl := Except.ok.inj (hr.symm.trans ht)
      exact ⟨q, ⟨hq, hd⟩, rfl, rfl⟩

/-- An artifact tells of the regions that its file loses, or of the checks that it lacks. -/
theorem emit_notices {record : ScaffoldRecord} (h : w.emit g o header x s = (.ok record, s')) :
    ∃ lost : List String, s'.notices = s.notices ++ lost.map (.droppedRegion (w.artifactOf o.output x).destination) ++
      if x.2 = .dependencies ∧ record.outcome = .skipped then
        missingPredicates s' (w.artifactOf o.output x).destination (predicatesOf w x.1) else [] := by
  obtain ⟨outcome, mid, ha, rfl, rfl⟩ := of_emit_ok h
  obtain ⟨lost, hlost⟩ := Artifact.scaffold_notices ha
  refine ⟨lost, ?_⟩
  rw [← hlost]
  rfl

variable {before xs : List (Resource × ArtifactKind)} {records : List ScaffoldRecord}

theorem exists_emission {s₀ : Workspace} (h : xs.Forall₂ (w.Emission g o header s₀ s) records) (hx : x ∈ xs) :
    ∃ record, w.Emission g o header s₀ s x record := by
  obtain ⟨i, hi, rfl⟩ := List.mem_iff_getElem.1 hx
  exact ⟨_, (List.forall₂_iff_get.1 h).2 i hi (h.length_eq ▸ hi)⟩

/-- A file of checks that a run did not find there defines all that is asked of it. -/
theorem Emission.defines {s₀ : Workspace} {record : ScaffoldRecord}
    (h : w.Emission .builtin o header s₀ s x record) (hk : x.2 = .dependencies) (hne : record.outcome ≠ .skipped) :
    ∃ text, s.readText (w.artifactOf o.output x).destination = .ok text ∧
      ∀ q ∈ predicatesOf w x.1, Defines text q := by
  obtain ⟨place, e, found, hl, -, hrev⟩ := h.file
  obtain ⟨r, k⟩ := x
  obtain rfl := hk
  generalize record.outcome = outcome at hrev hne
  cases hrev with
  | skipped => exact absurd rfl hne
  | unchanged _ hp => exact absurd rfl hp
  | updated _ hp => exact absurd rfl hp
  | created hr => exact ⟨_, readText_of_locate hl, fun q hq => defines_rendered hq hr⟩

theorem emit_tells {record : ScaffoldRecord} (h : w.emit .builtin o header x s = (.ok record, s'))
    (he : w.Emission .builtin o header s s' x record) : s.Tells s' (w.Lacks o.output s' x) := by
  obtain ⟨lost, hn⟩ := emit_notices h
  refine ⟨_, hn.trans (List.append_assoc ..), fun p q => ?_⟩
  have hlost : Notice.missingPredicate p q ∉
      lost.map (Notice.droppedRegion (w.artifactOf o.output x).destination) := by simp
  rw [List.mem_append, or_iff_right hlost]
  split
  next hskip =>
    rw [mem_missingPredicates, Lacks]
    exact (and_iff_right hskip.1).symm
  next hskip =>
    refine iff_of_false List.not_mem_nil ?_
    rintro ⟨hk, rfl, hq, text, ht, hdef⟩
    obtain ⟨text', ht', hall⟩ := he.defines hk fun ho => hskip ⟨hk, ho⟩
    obtain rfl := Except.ok.inj (ht.symm.trans ht')
    exact hdef (hall q hq)

theorem Lacks.congr (h : s'.readText (w.artifactOf o.output x).destination =
    s.readText (w.artifactOf o.output x).destination) (p : Path) (q : String) :
    w.Lacks o.output s' x p q ↔ w.Lacks o.output s x p q := by
  unfold Lacks
  refine and_congr_right fun _ => and_congr_right ?_
  rintro rfl
  rw [h]

/-- What was told of a file stays true of it as long as only other files are touched. -/
theorem LaidOut.lacks_iff {record : ScaffoldRecord} {s₀ : Workspace} {paths : List Path}
    (h : w.LaidOut order o.scope o.output s) (hx : x ∈ plan o.scope [] order)
    (he : w.Emission g o header s₀ s x record) (ht : Touches s s s' paths)
    (hfree : ∀ p ∈ paths, s.Apart (w.artifactOf o.output x).destination p) (p : Path) (q : String) :
    w.Lacks o.output s' x p q ↔ w.Lacks o.output s x p q := by
  obtain ⟨place, e, found, hl, -, -⟩ := he.file
  have hl' := ht.locate h.separate (List.mem_cons_of_mem _ (List.mem_map_of_mem hx)) (.refl s) hfree hl
  exact Lacks.congr (readText_of_locate_eq hl hl') p q

theorem mapM_tells (hv : w.validate = .ok order) (hd : o.mode.dryRun = false) (hl : s.NoLinksBelow o.output)
    (hplan : plan o.scope [] order = before ++ xs)
    (h : xs.mapM (w.emit .builtin o header) s = (.ok records, s')) :
    s.Tells s' fun p q => ∃ x ∈ xs, w.Lacks o.output s' x p q := by
  -- on what is left to emit; each step starts from a workspace where the plan is laid out as well
  induction xs generalizing before s records with
  | nil =>
    obtain ⟨-, rfl⟩ := Prod.mk.inj h
    exact (Tells.of_notices rfl).congr (by simp)
  | cons x xs ih =>
    obtain ⟨_, -, he⟩ | ⟨record, mid, r, hone, hrest, he⟩ := Action.mapM_cons_apply h
    · cases he
    cases r with
    | error e => cases he
    | ok rest =>
      have hplan₁ : plan o.scope [] order = before ++ [x] ++ xs := by rw [hplan, List.append_assoc]; rfl
      have hplan₂ : plan o.scope [] order = before ++ [x] ++ xs ++ [] := by rw [hplan₁, List.append_nil]
      obtain ⟨ht₁, -, hall⟩ := (laidOut hv hl).emits hd hplan₁ (Action.mapM_cons_ok hone rfl)
      obtain ⟨hx, -⟩ := List.forall₂_cons.1 hall
      have hl₁ : mid.NoLinksBelow o.output := hl.of_grows ht₁.grows
      have hlaid : w.LaidOut order o.scope o.output mid := laidOut hv hl₁
      obtain ⟨ht₂, -, -⟩ := hlaid.emits hd hplan₂ hrest
      have hfree : ∀ p ∈ w.destinations o.output xs, mid.Apart (w.artifactOf o.output x).destination p := by
        have hapart := hlaid.apart
        rw [hplan, destinations, List.map_append] at hapart
        exact (List.pairwise_cons.1 (List.pairwise_append.1 hapart).2.1).1
      have hmem : x ∈ plan o.scope [] order := by rw [hplan₁]; simp
      refine ((emit_tells hone hx).trans (ih hl₁ hplan₁ hrest)).congr fun p q => ?_
      rw [List.exists_mem_cons_iff, hlaid.lacks_iff hmem hx ht₂ hfree]

theorem recordResources_notices {root : Path} {controllers : Bool} {r : Except ScaffoldError WriteOutcome}
    (h : recordResources root w order controllers s = (r, s')) : s'.notices = s.notices := by
  obtain ⟨mid, hm, rfl | ⟨-, d, n, text, m, -, rfl⟩⟩ := recordResources_spec h
  · exact hm.notices
  · exact hm.notices

/-- A run tells which checks its files lack at its end, and of no others. -/
theorem scaffold_tells {report : ScaffoldReport} (hv : w.validate = .ok order) (hd : o.mode.dryRun = false)
    (hl : s.NoLinksBelow o.output) (h : w.scaffold order .builtin o s = (.ok report, s')) :
    s.Tells s' fun p q => ∃ x ∈ plan o.scope [] order, w.Lacks o.output s' x p q := by
  obtain ⟨-, header, mid, -, hmap, hrec⟩ := scaffold_eq_ok_iff.1 h
  have htells : s.Tells mid fun p q => ∃ x ∈ plan o.scope [] order, w.Lacks o.output mid x p q :=
    mapM_tells hv hd hl (List.nil_append _).symm hmap
  split at hrec
  next =>
    obtain ⟨outcome, hrec⟩ := hrec
    obtain ⟨hb, hall⟩ := (laidOut hv hl).emits_all hd hmap
    have hl₁ : mid.NoLinksBelow o.output := hl.of_grows hb.grows
    have hlaid : w.LaidOut order o.scope o.output mid := laidOut hv hl₁
    obtain ⟨ht, -⟩ := record_between (.refl mid []) hl₁ hrec
    refine (htells.trans (.of_notices (recordResources_notices hrec))).congr fun p q => ?_
    rw [or_false]
    refine exists_congr fun x => and_congr_right fun hx => ?_
    obtain ⟨record, hemission⟩ := exists_emission hall hx
    have hfree := List.forall_mem_singleton.2 (hlaid.project _ (List.mem_map_of_mem hx))
    exact (hlaid.lacks_iff hx hemission ht hfree p q).symm
  next =>
    rw [hrec]
    exact htells

end Workload

/-- A call came out, and what it leaves passes a check. -/
def Action.leaves {ε α : Type} (P : Workspace → Bool) : Except ε α × Workspace → Bool
  | (.ok _, s) => P s
  | (.error _, _) => false

theorem Action.exists_of_leaves {ε α : Type} {P : Workspace → Bool} {x : Except ε α × Workspace} (h : leaves P x) :
    ∃ a s, x = (.ok a, s) ∧ P s := by
  obtain ⟨r, s⟩ := x
  cases r with
  | error e => cases h
  | ok a => exact ⟨a, s, rfl, h⟩

namespace Workspace

variable {s s' : Workspace} {root p : Path} {q : Place} {dests : List Path}

/-- What stands where a path leads is text, and no directory that the root needs is to be made there. -/
def Legible (s : Workspace) (root p : Path) : Prop :=
  ∀ q, s.LeadsTo p q →
    (∀ e, s.files.at? q = some e → ∃ text mode, e = .file (.text text) mode) ∧
    (s.files.at? q = none → ∀ a : Path, a.UpTo root → ¬s.LeadsTo a q)

theorem legible_of_locate {t : String} {m : Nat} (h : s.locate p = .ok (q, .file (.text t) m))
    (hat : s.files.at? q = some (.file (.text t) m)) : s.Legible root p := by
  intro q' hlead
  obtain rfl := (leadsTo_of_locate h).unique hlead
  rw [hat]
  refine ⟨fun e he => ⟨t, m, (Option.some.inj he).symm⟩, fun hnone => ?_⟩
  cases hnone

/-- What is found at a legible destination was there at the start. -/
theorem Legible.at? {e : Entry} (h : s.Legible root p) (hs : Separate s root dests) (hp : p ∈ dests) (hg : s.Grows s')
    (hl : s'.locate p = .ok (q, e)) (hfound : Finds s root p q (some e)) : s.files.at? q = some e := by
  have hlead : s.LeadsTo p q := ⟨s', e, hg, hl⟩
  obtain ⟨htext, hclear⟩ := h q hlead
  obtain hfound | ⟨⟨-, q', hlead', hwhy⟩, hfound⟩ := hfound
  · obtain ⟨q', hl'⟩ := locate_of_entry? hfound.symm
    obtain rfl := hlead.unique (leadsTo_of_locate hl')
    exact hs.ends p hp s q e (.refl s) hl'
  obtain rfl := hlead.unique hlead'
  obtain hfound | hfound := hfound
  · exact hfound.symm
  -- A directory that was made would stand where the root leads, or where a text was.
  obtain rfl := Option.some.inj hfound
  cases hat : s.files.at? q with
  | none =>
    obtain hne | ⟨a, ha, hlead⟩ := hwhy
    · exact absurd hat hne
    · exact absurd hlead (hclear hat a ha)
  | some e =>
    obtain ⟨text, mode, rfl⟩ := htext e hat
    obtain ⟨e', hat', hb⟩ := hg.2.kept q _ hat
    rw [hs.ends p hp s' q _ hg hl] at hat'
    cases hat'
    cases hb

end Workspace

namespace Workload

variable {w : Workload} {g : Registry} {o : ScaffoldOptions} {header : String} {s s' : Workspace}
  {order : List Resource} {r : Resource}

/-- Where the files of checks are legible, they can be read once they were emitted. -/
theorem Emission.readable {record : ScaffoldRecord} (h : w.Emission g o header s s' (r, .dependencies) record)
    (hlaid : w.LaidOut order o.scope o.output s) (hx : (r, .dependencies) ∈ plan o.scope [] order) (hg : s.Grows s')
    (hread : s.Legible o.output (w.checksAt o.output r)) :
    ∃ text, s'.readText (w.checksAt o.output r) = .ok text := by
  obtain ⟨q, e, found, hl, hfound, hrev⟩ := h.file
  generalize record.outcome = outcome at hrev
  cases hrev with
  | unchanged _ hp => exact absurd rfl hp
  | updated _ hp => exact absurd rfl hp
  | created => exact ⟨_, readText_of_locate hl⟩
  | skipped =>
    have hat : s.files.at? q = some e :=
      hread.at? hlaid.separate (List.mem_cons_of_mem _ (List.mem_map_of_mem hx)) hg hl hfound
    obtain ⟨text, mode, rfl⟩ := (hread q ⟨s', e, hg, hl⟩).1 e hat
    exact ⟨text, readText_of_locate hl⟩

theorem dependencies_mem_plan {scope : Scope} (hv : w.validate = .ok order) (hscope : scope.dependencies)
    (hr : r ∈ w.resources) : (r, .dependencies) ∈ plan scope [] order :=
  mem_plan_of_includes (by decide) hscope ((perm_of_validate hv).mem_iff.2 hr)

/-- Where a run is for checks, each resource has its file of them. -/
theorem exists_lacks_iff {scope : Scope} {root : Path} (hv : w.validate = .ok order) (hscope : scope.dependencies)
    (p : Path) (q : String) : (∃ x ∈ plan scope [] order, w.Lacks root s x p q) ↔
      ∃ t ∈ w.resources, p = w.checksAt root t ∧ q ∈ predicatesOf w t ∧
        ∃ text, s.readText p = .ok text ∧ ¬Defines text q := by
  constructor
  · rintro ⟨⟨t, k⟩, hx, rfl, rfl, hlacks⟩
    exact ⟨t, (perm_of_validate hv).mem_iff.1 (mem_plan hx).1, rfl, hlacks⟩
  · rintro ⟨t, ht, hlacks⟩
    exact ⟨_, dependencies_mem_plan hv hscope ht, rfl, hlacks⟩

/-- After a run, the file of checks of a resource that another one waits for defines the predicate that is asked of
it, or the run told that it does not. All that a run tells of is lacking. -/
theorem missing_checks_are_told {report : ScaffoldReport} (hv : w.validate = .ok order) (hd : o.mode.dryRun = false)
    (hscope : o.scope.dependencies) (hl : s.NoLinksBelow o.output)
    (hread : ∀ r ∈ order, s.Legible o.output (w.checksAt o.output r))
    (h : w.scaffold order .builtin o s = (.ok report, s')) :
    ∃ told, s'.notices = s.notices ++ told ∧
      (∀ d ∈ w.dependencies, ∃ t, w.resource? d.target = some t ∧
        ∃ text, s'.readText (w.checksAt o.output t) = .ok text ∧
          (Defines text d.readiness ∨ .missingPredicate (w.checksAt o.output t) d.readiness ∈ told)) ∧
      ∀ p q, .missingPredicate p q ∈ told ↔
        ∃ t ∈ w.resources, p = w.checksAt o.output t ∧ q ∈ predicatesOf w t ∧
          ∃ text, s'.readText p = .ok text ∧ ¬Defines text q := by
  have hrules := (decides_validate w).ok _ hv
  obtain ⟨told, hn, htold⟩ := (scaffold_tells hv hd hl h).congr (exists_lacks_iff hv hscope)
  refine ⟨told, hn, fun d hmem => ?_, htold⟩
  obtain ⟨t, ht, hname⟩ := List.mem_map.1 (hrules .endpoints d hmem).2
  refine ⟨t, hname ▸ resource?_name (hrules .names).1 ht, ?_⟩
  -- The file is there and can be read; where it lacks the predicate, that is among what is told.
  have hplanned := dependencies_mem_plan hv hscope ht
  obtain ⟨hgrows, header, -, hall, -⟩ := emissions_of_scaffold hv hd hl h
  obtain ⟨record, hemission⟩ := exists_emission hall hplanned
  obtain ⟨text, htext⟩ := hemission.readable (laidOut hv hl) hplanned hgrows (hread t (mem_plan hplanned).1)
  refine ⟨text, htext, or_iff_not_imp_left.2 fun hdef => (htold _ _).2 ?_⟩
  exact ⟨t, ht, rfl, mem_predicatesOf.2 (.inr ⟨d, hmem, hname.symm, rfl⟩), text, htext, hdef⟩

/-- A run of what is accepted, from files of checks that can be read, after which a check that is waited for is
neither there nor told of. -/
def Untold (w : Workload) (o : ScaffoldOptions) (s : Workspace) : Prop :=
  o.mode.dryRun = false ∧ o.scope.dependencies ∧ ∃ order report s', w.validate = .ok order ∧
    (∀ r ∈ order, s.has (w.checksAt o.output r) → ∃ text, s.readText (w.checksAt o.output r) = .ok text) ∧
    w.scaffold order .builtin o s = (.ok report, s') ∧
    ∃ d ∈ w.dependencies, ∃ t, w.resource? d.target = some t ∧
      (∀ text, s'.readText (w.checksAt o.output t) = .ok text → ¬Defines text d.readiness) ∧
      .missingPredicate (w.checksAt o.output t) d.readiness ∉ s'.notices

theorem untold_of_leaves {d : Dependency} {t : Resource} (hd : o.mode.dryRun = false) (hscope : o.scope.dependencies)
    (hv : w.validate = .ok order) (hmem : d ∈ w.dependencies) (ht : w.resource? d.target = some t)
    (hread : order.all fun r => !s.has (w.checksAt o.output r) || (s.readText (w.checksAt o.output r)).toBool)
    (h : Action.leaves (fun s' => s'.notices.isEmpty && !(s'.readText (w.checksAt o.output t)).toBool)
      (w.scaffold order .builtin o s)) : w.Untold o s := by
  obtain ⟨report, s', h, hend⟩ := Action.exists_of_leaves h
  obtain ⟨hnotices, hunread⟩ := Bool.and_eq_true_iff.1 hend
  refine ⟨hd, hscope, order, report, s', hv, fun r hr hhas => ?_, h, d, hmem, t, ht, fun text htext => ?_, ?_⟩
  · have hr := List.all_eq_true.1 hread r hr
    cases hx : s.readText (w.checksAt o.output r) with
    | ok text => exact ⟨text, rfl⟩
    | error e => simp [hhas, hx, Except.toBool] at hr
  · rw [htext] at hunread
    cases hunread
  · rw [List.isEmpty_iff.1 hnotices]
    exact List.not_mem_nil

end Workload

namespace Harbor

def dock : Resource := ⟨"dock", .component, "a", "v1", "Dock", "docks", true, [], [], [], none, false, "b.yaml"⟩

def ship : Resource := ⟨"ship", .component, "a", "v1", "Ship", "ships", true, [], [], [], none, false, "a.yaml"⟩

def workload : Workload :=
  ⟨"w", "w.yaml", "r", ⟨"a", "v1", none, true⟩, [dock, ship], [⟨"ship", "dock", "DockIsFree"⟩]⟩

def options (root : String) (samples : Bool) : ScaffoldOptions :=
  ⟨⟨root⟩, ⟨false, false⟩, ⟨false, false, samples, true, false⟩, none⟩

/-- The checks of a ship are there, and something else beside them. -/
def space (more : List (String × Entry)) : Workspace :=
  ⟨⟨[(["internal"], .directory), (["internal", "dependencies"], .directory),
    (["internal", "dependencies", "ship.go"], .file (.text "func ShipCheckReady(") 0o644)] ++
    more.map fun x => (["internal", "dependencies", x.1], x.2)⟩, [], []⟩

theorem validate_workload : workload.validate = .ok [dock, ship] :=
  Workload.validate_of_names (by simp [workload]) (by decide +kernel)

/-- The checks of a dock were written before a ship waited for it. -/
def kept : Workspace := space [("dock.go", .file (.text "func DockCheckReady(") 0o644)]

theorem missing_checks_are_told_of_a_kept_file : ∃ report s',
    workload.scaffold [dock, ship] .builtin (options "." false) kept = (.ok report, s') ∧
    s'.notices = [.missingPredicate ⟨"./internal/dependencies/dock.go"⟩ "DockIsFree"] ∧
    (∀ d ∈ workload.dependencies, ∃ t, workload.resource? d.target = some t ∧
      ∃ text, s'.readText (workload.checksAt ⟨"."⟩ t) = .ok text ∧
        (Defines text d.readiness ∨ .missingPredicate (workload.checksAt ⟨"."⟩ t) d.readiness ∈ s'.notices)) ∧
    ∀ p q, .missingPredicate p q ∈ s'.notices ↔
      ∃ t ∈ workload.resources, p = workload.checksAt ⟨"."⟩ t ∧ q ∈ predicatesOf workload t ∧
        ∃ text, s'.readText p = .ok text ∧ ¬Defines text q := by
  have hread : ∀ r ∈ [dock, ship], kept.Legible ⟨"."⟩ (workload.checksAt ⟨"."⟩ r) := by
    refine List.forall_mem_cons.2 ⟨?_, List.forall_mem_singleton.2 ?_⟩
    · exact legible_of_locate (q := ["internal", "dependencies", "dock.go"]) (t := "func DockCheckReady(")
        (m := 0o644) (by decide +kernel) (by decide +kernel)
    · exact legible_of_locate (q := ["internal", "dependencies", "ship.go"]) (t := "func ShipCheckReady(")
        (m := 0o644) (by decide +kernel) (by decide +kernel)
  have hlinks : kept.NoLinksBelow ⟨"."⟩ := noLinksBelow_of_entries (by simp [kept, space])
  obtain ⟨report, s', h, hnotices⟩ := Action.exists_of_leaves
    (P := fun s' => s'.notices = [.missingPredicate ⟨"./internal/dependencies/dock.go"⟩ "DockIsFree"])
    (x := workload.scaffold [dock, ship] .builtin (options "." false) kept) (by decide +kernel)
  obtain ⟨told, hn, hedges, htold⟩ := Workload.missing_checks_are_told (o := options "." false) validate_workload rfl
    rfl hlinks hread h
  refine ⟨report, s', h, of_decide_eq_true hnotices, ?_⟩
  rw [hn]
  exact ⟨hedges, htold⟩

/-- A directory that is made for another file may be where a link leads, or where the checks go. -/
theorem checks_go_untold_where_a_directory_is_made :
    workload.Untold (options "." true) (space [("dock.go", .link ⟨"../../config"⟩)]) ∧
    (∀ root, (space []).NoLinksBelow root) ∧
    workload.Untold (options "internal/dependencies/dock.go/../../.." true) (space []) :=
  ⟨Workload.untold_of_leaves (t := dock) rfl rfl validate_workload (.head _) rfl (by decide +kernel)
      (by decide +kernel),
    fun _ => noLinksBelow_of_entries (by simp [space]),
    Workload.untold_of_leaves (t := dock) rfl rfl validate_workload (.head _) rfl (by decide +kernel)
      (by decide +kernel)⟩

end Harbor

end OperatorScaffold

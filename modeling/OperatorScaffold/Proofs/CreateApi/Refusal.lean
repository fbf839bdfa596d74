import OperatorScaffold.Proofs.CreateApi.Calls
import OperatorScaffold.Proofs.Scaffold.Rehearsal
/-!
Failures that are known before scaffolding: they leave the workspace as it is, and what was checked
for them does not come up again later.
-/

namespace OperatorScaffold

open ArtifactKind Workspace

namespace Workload

variable {w : Workload} {g : Template.Registry} {o : ScaffoldOptions} {header : String}
  {s s' mid : Workspace} {order : List Resource} {e : Error} {p : Path} {label : String}

/-- Only a controller is refused for being there. -/
theorem refuses_of_emit {x : Resource × ArtifactKind}
    (h : w.emit g o header x s = (.error (.scaffold label (.destinationExists p)), s')) :
    x.2 = .controller ∧ o.mode.force = false ∧ s.has (w.artifactOf o.output x).destination := by
  obtain ⟨cause, he, hcase⟩ := emit_eq_error h
  obtain ⟨-, rfl⟩ := Error.scaffold.inj he
  obtain hfault | ⟨-, _, _, _, _, -, he⟩ := hcase
  · cases hfault with
    | refused hp hf hfound =>
      refine ⟨?_, hf, by rwa [has_eq_isSome, Option.isSome_iff_ne_none]⟩
      obtain ⟨r, k⟩ := x
      cases k <;> first | rfl | cases hp
  · cases he

theorem not_ofFile_destinationExists : ¬(ScaffoldError.destinationExists p).OfFile := by
  rintro (⟨_, _, h⟩ | ⟨_, _, h⟩) <;> cases h

/-- Where no controller was there when the destinations were checked, none is found to be there later:
what is emitted before it does not put a file where it goes. -/
theorem no_destination_exists_after_check (hv : w.validate = .ok order) (hl : s.NoLinksBelow o.output)
    (hc : ∀ r ∈ order, ¬s.Obscured o.output (w.controllerOf o.output r).destination)
    (hcheck : checkDestinations s w order o = .ok ()) :
    w.scaffold order g o s ≠ (.error (.scaffold label (.destinationExists p)), s') := by
  intro h
  cases scaffold_eq_iff.1 h with
  | refused hrefused => cases hcheck.symm.trans hrefused
  | headless _ hheader => exact not_ofFile_destinationExists (Boilerplate.resolve_eq_error hheader)
  | @failed header _ _ _ hmap =>
    obtain ⟨emitted, x, rest, records, mid, hplan, hmid, hx⟩ := Action.mapM_eq_error hmap
    obtain ⟨hk, hf, hhas⟩ := refuses_of_emit hx
    have hmem : x ∈ plan o.scope [] order := by simp [hplan]
    have hr := (mem_plan hmem).1
    have hdest : w.controllerOf o.output x.1 = w.artifactOf o.output x := by
      rw [artifactOf, hk]
      rfl
    have hin : o.scope.controllers = true := by
      have := includes_of_mem_plan hmem
      rwa [hk] at this
    have hfree := (checkDestinations_eq_ok_iff.1 hcheck).2 hf hin x.1 hr
    have hclear := hc x.1 hr
    rw [hdest] at hfree hclear
    cases hd : o.mode.dryRun with
    | true =>
      obtain ⟨notices, hdry⟩ := mapM_dry w g header s s.notices hd emitted
      obtain ⟨-, rfl⟩ := Prod.mk.inj (hdry.symm.trans hmid)
      exact hfree hhas
    | false =>
      have hdests : (w.artifactOf o.output x).destination ∈
          ProjectFile.path o.output :: w.destinations o.output (x :: rest) :=
        List.mem_cons_of_mem _ List.mem_cons_self
      have hentry := entry?_of_emitted hv hd hl hplan hmid _ hdests hclear
      rw [has_eq_isSome, hentry, ← has_eq_isSome] at hhas
      exact hfree hhas
  | unrecorded _ _ _ hrec => exact not_ofFile_destinationExists (recordResources_eq_error hrec)

end Workload

namespace CreateApi

variable {c c' : CreateApi} {s s' : Workspace} {e : Error} {ps : List Phase}

/-- The phases that come before scaffolding. -/
def preparing : List Phase := [.injectConfig, .injectResource, .preScaffold]

theorem runPhase_of_preparing {p : Phase} {r : Except Error Unit} (hp : p ∈ preparing)
    (h : c.runPhase s p = (r, c', s')) : s' = s := by
  simp only [preparing, List.mem_cons, List.not_mem_nil, or_false] at hp
  obtain rfl | rfl | rfl := hp
  · simp only [runPhase, injectConfig] at h
    split at h <;> cases h <;> rfl
  · simp only [runPhase, injectResource] at h
    split at h
    · cases h; rfl
    · split at h <;> cases h <;> rfl
  · simp only [runPhase, preScaffold] at h
    split at h <;> cases h <;> rfl

theorem runPhases_of_preparing {r : Except Error Unit} (hps : ps ⊆ preparing)
    (h : c.runPhases s ps = (r, c', s')) : s' = s := by
  induction ps generalizing c s with
  | nil =>
    cases h
    rfl
  | cons p ps ih =>
    obtain ⟨hp, hps⟩ := List.cons_subset.1 hps
    rw [runPhases] at h
    split at h
    next hone =>
      cases h
      exact runPhase_of_preparing hp hone
    next hone =>
      obtain rfl := runPhase_of_preparing hp hone
      exact ih hps h

theorem runPhases_append (ps qs : List Phase) : c.runPhases s (ps ++ qs) =
    match c.runPhases s ps with
    | (.error e, c, s) => (.error e, c, s)
    | (.ok (), c, s) => c.runPhases s qs := by
  induction ps generalizing c s with
  | nil => rfl
  | cons p ps ih =>
    rw [List.cons_append, runPhases, runPhases]
    cases c.runPhase s p with
    | mk r rest =>
      obtain ⟨c', s'⟩ := rest
      cases r with
      | error e => rfl
      | ok => exact ih

/-- What the later phases fail with is no fault of the document. -/
theorem runPhase_eq_error {p : Phase} (hp : p ∉ preparing) (h : c.runPhase s p = (.error e, c', s')) :
    (∀ cause, e ≠ .parse cause) ∧ ∀ cause, e ≠ .validation cause := by
  cases p with
  | injectConfig => exact absurd (by decide) hp
  | injectResource => exact absurd (by decide) hp
  | preScaffold => exact absurd (by decide) hp
  | scaffold =>
    simp only [runPhase, scaffold, ordered] at h
    cases hw : c.workload with
    | none =>
      rw [hw] at h
      cases h
      exact ⟨by simp, by simp⟩
    | some l =>
      rw [hw] at h
      dsimp only at h
      split at h
      next hs =>
        cases h
        obtain ⟨label, cause, rfl, -⟩ := Workload.scaffold_eq_error hs
        exact ⟨by simp, by simp⟩
      next => cases h
  | postScaffold =>
    simp only [runPhase, postScaffold] at h
    split at h
    · cases h
      exact ⟨by simp, by simp⟩
    · split at h
      · cases h
      · split at h <;> cases h
        exact ⟨by simp, by simp⟩

theorem runPhases_eq_error (hps : ∀ p ∈ ps, p ∉ preparing) (h : c.runPhases s ps = (.error e, c', s')) :
    (∀ cause, e ≠ .parse cause) ∧ ∀ cause, e ≠ .validation cause := by
  induction ps generalizing c s with
  | nil => cases h
  | cons p ps ih =>
    obtain ⟨hp, hps⟩ := List.forall_mem_cons.1 hps
    rw [runPhases] at h
    split at h
    next hone =>
      cases h
      exact runPhase_eq_error hp hone
    next => exact ih hps h

theorem run_eq (c : CreateApi) (s : Workspace) : c.run s =
    match c.runPhases s preparing with
    | (.error e, c, s) => (.error e, c, s)
    | (.ok (), c, s) => c.runPhases s [.scaffold, .postScaffold] :=
  runPhases_append preparing [.scaffold, .postScaffold]

/-- Failures that are known in advance touch nothing: neither a document that is refused nor a phase
before scaffolding that fails changes the workspace. And the guard of the controllers does not fire in
a run that was checked for it. -/
theorem known_failures_touch_nothing (c : CreateApi) (s : Workspace) :
    (∀ e c' s', c.run s = (.error e, c', s') →
      (∃ cause, e = .parse cause) ∨ (∃ cause, e = .validation cause) → s' = s) ∧
    (∀ e, (c.runPhases s preparing).1 = .error e → ∃ c', c.run s = (.error e, c', s)) ∧
    ∀ (w : Workload) (order : List Resource) (g : Template.Registry) (o : ScaffoldOptions),
      w.validate = .ok order → s.NoLinksBelow o.output →
      (∀ r ∈ order, ¬s.Obscured o.output (w.controllerOf o.output r).destination) →
      w.checkDestinations s order o = .ok () →
      ∀ label p s', w.scaffold order g o s ≠ (.error (.scaffold label (.destinationExists p)), s') := by
  have hprepared {r : Except Error Unit} {c' : CreateApi} {s' : Workspace}
      (h : c.runPhases s preparing = (r, c', s')) : s' = s :=
    runPhases_of_preparing (List.Subset.refl _) h
  refine ⟨fun e c' s' h he => ?_, fun e he => ?_, fun w order g o hv hl hc hcheck label p s' => ?_⟩
  · rw [run_eq] at h
    split at h
    next hp =>
      cases h
      exact hprepared hp
    next =>
      obtain ⟨hparse, hvalidation⟩ := runPhases_eq_error (by decide) h
      obtain ⟨cause, rfl⟩ | ⟨cause, rfl⟩ := he
      · exact absurd rfl (hparse cause)
      · exact absurd rfl (hvalidation cause)
  · rw [run_eq]
    cases h : c.runPhases s preparing with
    | mk r rest =>
      obtain ⟨c', s'⟩ := rest
      obtain rfl := hprepared h
      rw [h] at he
      obtain rfl : r = .error e := he
      exact ⟨c', rfl⟩
  · exact Workload.no_destination_exists_after_check hv hl hc hcheck

end CreateApi

/-- Whether a run was refused for a file that is there. -/
def isDestinationExists {α : Type} : Except Error α → Bool
  | .error (.scaffold _ (.destinationExists _)) => true
  | _ => false

theorem of_isDestinationExists {α : Type} {r : Except Error α} (h : isDestinationExists r) :
    ∃ label p, r = .error (.scaffold label (.destinationExists p)) := by
  unfold isDestinationExists at h
  split at h
  next label p => exact ⟨label, p, rfl⟩
  next => cases h

namespace Queue

open CreateApi

def document : String :=
  "\x7b\"apiVersion\": \"opforge.dev/v1alpha1\", \"kind\": \"StandaloneWorkload\", \"name\": \"queue\", \"spec\":
  \x7b\"repository\": \"r\", \"api\": \x7b\"group\": \"apps\", \"version\": \"v1\", \"kind\": \"Queue\"\x7d\x7d\x7d"

def controllers : ScaffoldOptions := options ⟨false, false, false, true, true⟩

/-- A document, and what there is for a controller. -/
def controlled (controller : List (Place × Entry)) : Workspace :=
  ⟨⟨[(["w.json"], .file (.text document) 0o644), (["out"], .directory), (["out", "controllers"], .directory),
    (["out", "controllers", "apps"], .directory)] ++ controller⟩, [], []⟩

def mineAt : List (Place × Entry) := [(["out", "controllers", "apps", "queue_controller.go"], mine)]

def linkAt : List (Place × Entry) :=
  [(["out", "controllers", "apps", "queue_controller.go"], .link ⟨"../../internal/dependencies/queue.go"⟩)]

def command (document : String) : CreateApi :=
  start ⟨⟨document⟩, controllers, ⟨false, false, ⟨"gen"⟩, none⟩, none, none⟩ registry

theorem checkDestinations_ok {s : Workspace}
    (h : (Workload.checkDestinations s workload [resource] controllers).isOk) :
    workload.checkDestinations s [resource] controllers = .ok () := by
  cases hc : workload.checkDestinations s [resource] controllers with
  | error e =>
    rw [hc] at h
    cases h
  | ok => rfl

theorem known_failures_touch_nothing_beside_a_controller :
    (∃ cause c', (command "w.yaml").run (controlled mineAt) =
      (.error (.parse cause), c', controlled mineAt)) ∧
    (∃ label p c', (command "w.json").run (controlled mineAt) =
      (.error (.scaffold label (.destinationExists p)), c', controlled mineAt)) ∧
    workload.checkDestinations (controlled []) [resource] controllers = .ok () ∧
    ∀ label p s', workload.scaffold [resource] registry controllers (controlled []) ≠
      (.error (.scaffold label (.destinationExists p)), s') := by
  refine ⟨?_, ?_, ?_⟩
  · have hparse : Workload.parse (controlled mineAt) ⟨"w.yaml"⟩ = .error (.io ⟨"w.yaml"⟩ .noEntry) := by
      have hload : Workload.loadFile (controlled mineAt) ⟨"w.yaml"⟩ [] =
          some (.error (.io ⟨"w.yaml"⟩ .noEntry), []) :=
        Workload.loadFile_missing rfl
      rw [Workload.parse, Workload.loadDocument_eq_iff.2 hload]
      rfl
    have hrun : ((command "w.yaml").run (controlled mineAt)).1 =
        .error (.parse (.io ⟨"w.yaml"⟩ .noEntry)) := by
      rw [run, runPhases, runPhase_injectConfig_of_error hparse]
    cases h : (command "w.yaml").run (controlled mineAt) with
    | mk r rest =>
      obtain ⟨c', s'⟩ := rest
      rw [h] at hrun
      cases hrun
      obtain rfl := (known_failures_touch_nothing _ _).1 _ _ _ h (.inl ⟨_, rfl⟩)
      exact ⟨_, c', rfl⟩
  · have hrun : ((Workload.ofText? "/w.json" document).bind Except.toOption).any fun l =>
        isDestinationExists ({ command "w.json" with workload := some l }.runPhases (controlled mineAt)
          [.injectResource, .preScaffold]).1 := by
      set_option maxRecDepth 2000 in
      have htext : document.toList = _ := String.toList_ofList
      rw [Workload.ofText?, Json.read, htext]
      decide +kernel
    have hhere : (controlled mineAt).canonical ⟨"w.json"⟩ = .ok ⟨"/w.json"⟩ := rfl
    obtain ⟨l, hl, hrun⟩ := Workload.exists_parse_of_any hhere rfl (by decide) hrun
    have hprepare : (command "w.json").runPhases (controlled mineAt) preparing =
        { command "w.json" with workload := some l }.runPhases (controlled mineAt)
          [.injectResource, .preScaffold] := by
      rw [preparing, runPhases, runPhase_injectConfig hl]
    obtain ⟨label, p, h⟩ := of_isDestinationExists hrun
    obtain ⟨c', h⟩ := (known_failures_touch_nothing _ _).2.1 _ ((congrArg Prod.fst hprepare).trans h)
    exact ⟨label, p, c', h⟩
  · have hlinks : ∀ x ∈ (controlled []).files.entries, ∀ target, x.2 ≠ .link target := by
      simp [controlled]
    have hpath : (workload.controllerOf controllers.output resource).destination =
        ⟨"out/controllers/apps/queue_controller.go"⟩ := by
      decide
    have hclear : ∀ r ∈ [resource], ¬(controlled []).Obscured controllers.output
        (workload.controllerOf controllers.output r).destination := by
      rw [List.forall_mem_singleton, hpath]
      exact not_obscured_of_free (d := ["out", "controllers", "apps"]) (n := "queue_controller.go")
        hlinks rfl rfl (by decide)
    have hcheck := checkDestinations_ok (s := controlled []) (by decide)
    exact ⟨hcheck, (known_failures_touch_nothing (command "w.json") _).2.2 _ _ registry _ validate_workload
      (noLinksBelow_of_entries hlinks) hclear hcheck⟩

/-- A controller that is a link to a file which is yet to be written is not there when the destinations
are checked, but when its turn comes. -/
theorem guard_fires_behind_a_link :
    workload.validate = .ok [resource] ∧
      workload.checkDestinations (controlled linkAt) [resource] controllers = .ok () ∧
      ∃ label p s', workload.scaffold [resource] registry controllers (controlled linkAt) =
        (.error (.scaffold label (.destinationExists p)), s') := by
  refine ⟨validate_workload, checkDestinations_ok (by decide), ?_⟩
  have hrun : (match (workload.scaffold [resource] registry controllers (controlled linkAt)).1 with
      | .error (.scaffold _ (.destinationExists _)) => true
      | _ => false) = true := by
    decide +kernel
  cases h : workload.scaffold [resource] registry controllers (controlled linkAt) with
  | mk r s' =>
    rw [h] at hrun
    dsimp only at hrun
    split at hrun
    next label p => exact ⟨label, p, s', rfl⟩
    next => cases hrun

end Queue

end OperatorScaffold

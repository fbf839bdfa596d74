import OperatorScaffold.Proofs.Project.Recording
import OperatorScaffold.Proofs.Scaffold.Separation
/-!
Recording a workload in the metadata on disk, and again in what was written.
-/

namespace OperatorScaffold

open ArtifactKind FileTree Workspace

namespace Workspace

variable {s₀ s s' : Workspace} {root a p : Path} {q l : Place} {e : Entry} {dirs : List String}
  {n text : String}

theorem locate_of_inside (hr : refused? root = none) (h : s.locate (inside root) = .ok (q, e)) :
    ∃ e', s.locate root = .ok (q, e') := by
  have hw := (locate_eq_ok_iff.1 h).2
  rw [steps_inside, inside, origin_join (by decide)] at hw
  by_cases hslash : root.endsWithSlash
  · refine ⟨e, locate_eq_ok_iff.2 ⟨hr, ?_⟩⟩
    rwa [Path.steps, if_pos hslash]
  · obtain ⟨mid, links, hmid, hdot⟩ := hw.split (by simp)
    cases hdot.of_here
    refine ⟨.directory, locate_eq_ok_iff.2 ⟨hr, ?_⟩⟩
    rwa [steps_eq_names (by simpa using hslash)]

theorem writeText_readText (hl : s₀.NoLinksBelow root) (hg : s₀.Grows s) (ha : Ends a dirs n)
    (hland : land? [] dirs = some l) (h : writeText (root.join a) text s = (.ok (), s')) :
    s.Grows s' ∧ s'.readText (root.join a) = .ok text := by
  obtain ⟨mid, hm, ⟨_, he, -⟩ | ⟨-, d, m, ho, rfl⟩⟩ := writeText_spec h
  · cases he
  have hmid := hg.trans hm.grows
  obtain ⟨r, hr, e⟩ := ho.join hl hmid ha hland
  have hput : mid.files.Grows (mid.files.put (d ++ [m]) (.file (.text text) (mid.modeAt (root.join a)))) := by
    refine grows_put (by simp) (fun x hx => ?_) nofun
    cases x with
    | file => exact .rewritten
    | directory => exact absurd hx ho.free
    | link target =>
      rw [e] at hx
      exact absurd hx (hl.grown hmid hr _ target)
  have hloc := ho.locate hput (at?_put_self (by simp))
  refine ⟨hm.grows.trans ⟨rfl, hput⟩, ?_⟩
  unfold readText
  rw [show (mid.put (d ++ [m]) _).locate (root.join a) = _ from hloc]

end Workspace

namespace ProjectFile

variable {s₀ s s' : Workspace} {root a : Path} {w : Workload} {order : List Resource}
  {controllers : Bool} {p : ProjectFile} {text : String} {dirs : List String} {n : String}

/-- Where a file is below the root already, the root is found where it will be later. -/
theorem configPath_grows (ha : Ends a dirs n) (hin : s.has (root.join a)) (hg : s.Grows s')
    (source : String) : configPath s' root source = configPath s root source := by
  unfold configPath canonical
  cases hs : s.locate root with
  | ok r =>
    obtain ⟨e, -, hs'⟩ := hg.locate hs
    rw [hs']
    rfl
  | error e =>
    cases hs' : s'.locate root with
    | error e' => rfl
    | ok r =>
      obtain ⟨q, x, hq⟩ := has_iff.1 hin
      obtain ⟨hr, hw⟩ := locate_eq_ok_iff.1 hq
      rw [ha.steps_join] at hw
      obtain ⟨r', links, hi, -⟩ := locate_inside ha.relative ha.text_ne hr (by simp) hw
      obtain ⟨e', he⟩ := locate_of_inside (locate_eq_ok_iff.1 hs').1 hi
      rw [hs] at he
      cases he

theorem toList_render (p : ProjectFile) : p.render.toList =
    header.toList ++ ((Yaml.Value.write .start none ⟨false, false⟩ p.toValue).indentTo 0).written.reverse := by
  rw [render, String.toList_append, Yaml.Value.render, String.toList_ofList]

theorem load_eq_some_iff : load s root = .ok (some p) ↔
    ∃ text, s.readText (path root) = .ok text ∧ read text = some p := by
  unfold load
  constructor
  · intro h
    split at h
    next =>
      obtain ⟨text, ht, h⟩ := bind_eq_ok.1 h
      refine ⟨text, mapError_eq_ok.1 ht, ?_⟩
      split at h
      next q hq =>
        obtain rfl := Option.some.inj (Except.ok.inj h)
        exact hq
      next => cases h
    next => cases h
  · rintro ⟨text, ht, hp⟩
    have hhas : s.has (path root) = true := by
      obtain ⟨q, m, hl⟩ := Workspace.readText_eq_ok ht
      exact has_iff.2 ⟨q, _, hl⟩
    rw [if_pos hhas]
    refine bind_eq_ok.2 ⟨text, mapError_eq_ok.2 ht, ?_⟩
    rw [hp]
    rfl

theorem loadSupported_eq_ok_iff {existing : Option ProjectFile} :
    loadSupported s root = .ok existing ↔ load s root = .ok existing ∧
      ∀ p, existing = some p → isSupportedVersion p.version := by
  unfold loadSupported
  constructor
  · intro h
    obtain ⟨found, hload, h⟩ := bind_eq_ok.1 h
    cases found with
    | none =>
      cases h
      exact ⟨hload, nofun⟩
    | some p =>
      dsimp only at h
      split at h
      next hv =>
        cases h
        exact ⟨hload, fun _ hp => Option.some.inj hp ▸ hv⟩
      next => cases h
  · rintro ⟨hload, hv⟩
    refine bind_eq_ok.2 ⟨existing, hload, ?_⟩
    cases existing with
    | none => rfl
    | some p => exact if_pos (hv p rfl)

theorem loadSupported_of_readText (ht : s.readText (path root) = .ok text) (hp : read text = some p)
    (hv : isSupportedVersion p.version) : loadSupported s root = .ok (some p) :=
  loadSupported_eq_ok_iff.2 ⟨load_eq_some_iff.2 ⟨text, ht, hp⟩, fun _ h => Option.some.inj h ▸ hv⟩

/-- The metadata that recording writes, where it says anything new. -/
def written? (s : Workspace) (root : Path) (w : Workload) (order : List Resource) (controllers : Bool) :
    Option ProjectFile :=
  match loadSupported s root with
  | .error _ => none
  | .ok existing =>
    let updated := (existing.getD .blank).record w order controllers (configPath s root w.source)
    if existing.any (·.same updated) then none else some updated

section

variable {existing : Option ProjectFile} {updated : ProjectFile}

theorem written?_of_load (hload : loadSupported s root = .ok existing) : written? s root w order controllers =
    if existing.any (·.same ((existing.getD .blank).record w order controllers (configPath s root w.source)))
    then none else some ((existing.getD .blank).record w order controllers (configPath s root w.source)) := by
  unfold written?
  rw [hload]

theorem written?_of_none (hload : loadSupported s root = .ok none) :
    written? s root w order controllers =
      some (record .blank w order controllers (configPath s root w.source)) :=
  written?_of_load hload

theorem eq_record_of_written? (hload : loadSupported s root = .ok existing)
    (h : written? s root w order controllers = some updated) :
    updated = (existing.getD .blank).record w order controllers (configPath s root w.source) := by
  rw [written?_of_load hload] at h
  split at h
  next => cases h
  next => exact (Option.some.inj h).symm

theorem exists_same_of_written?_none (hload : loadSupported s root = .ok existing)
    (h : written? s root w order controllers = none) :
    ∃ p, existing = some p ∧ p.same (p.record w order controllers (configPath s root w.source)) := by
  rw [written?_of_load hload] at h
  split at h
  next hsame =>
    obtain ⟨p, rfl, hp⟩ := (Option.any_eq_true _ _).1 hsame
    exact ⟨p, rfl, hp⟩
  next => cases h

/-- How recording may end. Metadata that says already what there is to record is not written again. -/
inductive RecordsTo (root : Path) (w : Workload) (order : List Resource) (controllers : Bool) (s : Workspace) :
    Except ScaffoldError WriteOutcome → Workspace → Prop
  | refused {e : ScaffoldError} : loadSupported s root = .error e →
      RecordsTo root w order controllers s (.error e) s
  | same {p : ProjectFile} : loadSupported s root = .ok (some p) →
      p.same (p.record w order controllers (configPath s root w.source)) →
      RecordsTo root w order controllers s (.ok .unchanged) s
  | failed {existing : Option ProjectFile} {updated : ProjectFile} {p : Path} {e : FileError} {s' : Workspace} :
      loadSupported s root = .ok existing → written? s root w order controllers = some updated →
      writeText (path root) updated.render s = (.error (p, e), s') →
      RecordsTo root w order controllers s (.error (.io p e)) s'
  | written {existing : Option ProjectFile} {updated : ProjectFile} {s' : Workspace} :
      loadSupported s root = .ok existing → written? s root w order controllers = some updated →
      writeText (path root) updated.render s = (.ok (), s') →
      RecordsTo root w order controllers s (.ok (if existing.isSome then .updated else .created)) s'

theorem recordResources_of_load (hload : loadSupported s root = .ok existing) :
    recordResources root w order controllers s = (match written? s root w order controllers with
      | none => pure .unchanged
      | some updated => do
        (writeText (path root) updated.render).relabel fun (p, e) => .io p e
        return if existing.isSome then .updated else .created : Action ScaffoldError WriteOutcome) s := by
  unfold recordResources
  rw [Action.bind_apply_ok Action.get_apply, Action.liftExcept_bind_ok hload, written?_of_load hload]
  dsimp only
  split
  next => rfl
  next => rfl

theorem RecordsTo.recordResources_eq {r : Except ScaffoldError WriteOutcome}
    (h : RecordsTo root w order controllers s r s') : recordResources root w order controllers s = (r, s') := by
  cases h with
  | refused hload =>
    unfold recordResources
    rw [Action.bind_apply_ok Action.get_apply, hload]
    rfl
  | same hload hsame =>
    rw [recordResources_of_load hload, written?_of_load hload, if_pos]
    · rfl
    · exact hsame
  | failed hload hwritten hwrite =>
    rw [recordResources_of_load hload, hwritten]
    exact Action.bind_apply_error (Action.relabel_error _ hwrite)
  | written hload hwritten hwrite =>
    rw [recordResources_of_load hload, hwritten]
    exact Action.bind_apply_ok (Action.relabel_ok _ hwrite)

theorem RecordsTo.created (hload : loadSupported s root = .ok none)
    (hwrite : writeText (path root) (record .blank w order controllers (configPath s root w.source)).render s =
      (.ok (), s')) : RecordsTo root w order controllers s (.ok .created) s' :=
  .written hload (written?_of_none hload) hwrite

variable (root w order controllers s) in
theorem exists_recordsTo : ∃ r s', RecordsTo root w order controllers s r s' := by
  cases hload : loadSupported s root with
  | error e => exact ⟨_, _, .refused hload⟩
  | ok existing =>
  cases hwritten : written? s root w order controllers with
  | none =>
    obtain ⟨p, rfl, hsame⟩ := exists_same_of_written?_none hload hwritten
    exact ⟨_, _, .same hload hsame⟩
  | some updated =>
  cases hwrite : writeText (path root) updated.render s with
  | mk r s' =>
  cases r with
  | error e => exact ⟨_, _, .failed hload hwritten hwrite⟩
  | ok => exact ⟨_, _, .written hload hwritten hwrite⟩

theorem recordResources_eq_iff {r : Except ScaffoldError WriteOutcome} :
    recordResources root w order controllers s = (r, s') ↔ RecordsTo root w order controllers s r s' := by
  refine ⟨fun h => ?_, RecordsTo.recordResources_eq⟩
  obtain ⟨r', mid, hrecords⟩ := exists_recordsTo s root w order controllers
  obtain ⟨rfl, rfl⟩ := Prod.mk.inj (h.symm.trans hrecords.recordResources_eq)
  exact hrecords

end

theorem isSupportedVersion_record {existing : Option ProjectFile} {configPath : String}
    (h : ∀ p, existing = some p → isSupportedVersion p.version) :
    isSupportedVersion ((existing.getD .blank).record w order controllers configPath).version := by
  rw [version_record]
  split
  next => decide
  next hne =>
    cases existing with
    | none => exact absurd rfl hne
    | some p => exact h p rfl

/-- What was recorded is recorded: loaded again, it is what recording makes of it. -/
theorem same_of_recordResources {outcome : WriteOutcome} (hn : (order.map (·.gvk)).Nodup)
    (hl : s₀.NoLinksBelow root) (hg : s₀.Grows s) (ha : Ends a dirs n) (hin : s.has (root.join a))
    (hread : ∀ p, written? s root w order controllers = some p → (read p.render).any (·.same p))
    (h : recordResources root w order controllers s = (.ok outcome, s')) :
    ∃ p, loadSupported s' root = .ok (some p) ∧
      p.same (p.record w order controllers (configPath s' root w.source)) := by
  cases recordResources_eq_iff.1 h with
  | same hload hsame => exact ⟨_, hload, hsame⟩
  | written hload hwritten hwrite =>
    obtain ⟨hgrows, htext⟩ := writeText_readText hl hg ends_project rfl hwrite
    -- What is read is only as good as what was written, so that all is said of `q` from here on.
    obtain ⟨q, hq, hsame⟩ := (Option.any_eq_true _ _).1 (hread _ hwritten)
    obtain rfl := eq_record_of_written? hload hwritten
    refine ⟨q, loadSupported_of_readText htext hq ?_, ?_⟩
    · obtain ⟨-, -, -, -, -, -, hversion, -⟩ := same_iff.1 hsame
      rw [hversion]
      exact isSupportedVersion_record (loadSupported_eq_ok_iff.1 hload).2
    · rw [configPath_grows ha hin hgrows]
      exact same_record hn hsame

end ProjectFile

end OperatorScaffold

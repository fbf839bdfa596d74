import OperatorScaffold.Proofs.Scaffold.Emission
/-!
What becomes of an artifact is foretold by what it finds.
-/

namespace OperatorScaffold

open ArtifactKind Workspace

namespace Workload

variable {w : Workload} {g : Template.Registry} {o : ScaffoldOptions} {header : String}
  {s s' : Workspace} {x : Resource × ArtifactKind}

/-- The record of an artifact, by what it finds. -/
def foretell (w : Workload) (g : Template.Registry) (o : ScaffoldOptions) (header : String)
    (x : Resource × ArtifactKind) (found : Option Entry) : Except Error ScaffoldRecord :=
  match (w.artifactOf o.output x).judge g o.mode.force (.of w x.1 header) found with
  | .error e => .error (.scaffold x.1.gvk.text e)
  | .ok v => .ok ⟨x.1.name, x.2, (w.artifactOf o.output x).destination, v.outcome⟩

theorem foretell_eq (w : Workload) (g : Template.Registry) (o : ScaffoldOptions) (header : String)
    (x : Resource × ArtifactKind) (found : Option Entry) : w.foretell g o header x found =
      match ((w.artifactOf o.output x).judge g o.mode.force (.of w x.1 header) found).map (·.outcome) with
      | .error e => .error (.scaffold x.1.gvk.text e)
      | .ok outcome => .ok ⟨x.1.name, x.2, (w.artifactOf o.output x).destination, outcome⟩ := by
  unfold foretell
  cases (w.artifactOf o.output x).judge g o.mode.force (.of w x.1 header) found with
  | error e => rfl
  | ok v => rfl

theorem emit_foretold {r : Except Error ScaffoldRecord} (h : w.emit g o header x s = (r, s')) :
    (o.mode.dryRun → ∃ notices, s' = { s with notices }) ∧
      (r = w.foretell g o header x (s.entry? (w.artifactOf o.output x).destination) ∨
        o.mode.dryRun = false ∧ ∃ e, r = .error (.scaffold x.1.gvk.text e) ∧
          Artifact.WriteFailed (w.artifactOf o.output x).destination s' e) := by
  rw [foretell_eq]
  obtain ⟨cause, ha, rfl⟩ | ⟨outcome, mid, ha, rfl, rfl⟩ := emit_cases h
  · obtain ⟨hdry, hj | ⟨hd, _, he, hw⟩⟩ := Artifact.scaffold_judged ha
    · rw [← hj]
      exact ⟨hdry, .inl rfl⟩
    · obtain rfl := Except.error.inj he
      exact ⟨hdry, .inr ⟨hd, _, rfl, hw⟩⟩
  · obtain ⟨hdry, hcase⟩ := Artifact.scaffold_judged ha
    have hj := hcase.resolve_right fun ⟨_, _, he, _⟩ => nomatch he
    rw [← hj]
    refine ⟨fun hd => ?_, .inl rfl⟩
    obtain ⟨_, rfl⟩ := hdry hd
    exact ⟨_, rfl⟩

theorem fault_of_foretell {found : Option Entry} {e : Error} (h : w.foretell g o header x found = .error e) :
    ∃ cause, e = .scaffold x.1.gvk.text cause ∧
      (w.artifactOf o.output x).Fault g o.mode.force (.of w x.1 header) found cause := by
  unfold foretell at h
  split at h
  next cause hj =>
    cases h
    exact ⟨cause, rfl, Artifact.fault_of_judge hj⟩
  next => cases h

/-- An artifact fails by what it finds, or in writing. -/
theorem emit_eq_error {e : Error} (h : w.emit g o header x s = (.error e, s')) :
    ∃ cause, e = .scaffold x.1.gvk.text cause ∧
      ((w.artifactOf o.output x).Fault g o.mode.force (.of w x.1 header)
          (s.entry? (w.artifactOf o.output x).destination) cause ∨
        o.mode.dryRun = false ∧ Artifact.WriteFailed (w.artifactOf o.output x).destination s' cause) := by
  obtain ⟨-, hr | ⟨hd, cause, he, hw⟩⟩ := emit_foretold h
  · obtain ⟨cause, rfl, hfault⟩ := fault_of_foretell hr.symm
    exact ⟨cause, rfl, .inl hfault⟩
  · exact ⟨cause, Except.error.inj he, .inr ⟨hd, hw⟩⟩

end Workload

/-- The failure has to do with a file and what is in it. -/
def ScaffoldError.OfFile (e : ScaffoldError) : Prop :=
  (∃ p cause, e = .io p cause) ∨ ∃ p fault, e = .project p fault

variable {s : Workspace} {root : Path} {e : ScaffoldError}

theorem Boilerplate.resolve_eq_error {configured : Option Path} {repository : String}
    (h : resolve s root configured repository = .error e) : e.OfFile := by
  unfold resolve at h
  dsimp only at h
  split at h
  next =>
    obtain h | ⟨_, -, h⟩ := bind_eq_error.1 h
    · obtain ⟨_, _, rfl⟩ := mapError_eq_error.1 h
      exact .inl ⟨_, _, rfl⟩
    · cases h
  next => cases h

theorem ProjectFile.loadSupported_eq_error (h : loadSupported s root = .error e) : e.OfFile := by
  obtain h | ⟨existing, -, h⟩ := bind_eq_error.1 h
  · unfold load at h
    split at h
    next =>
      obtain h | ⟨_, -, h⟩ := bind_eq_error.1 h
      · obtain ⟨_, _, rfl⟩ := mapError_eq_error.1 h
        exact .inl ⟨_, _, rfl⟩
      · split at h
        next => cases h
        next =>
          cases h
          exact .inr ⟨_, _, rfl⟩
    next => cases h
  · cases existing with
    | none => cases h
    | some p =>
      dsimp only at h
      split at h
      next => cases h
      next =>
        cases h
        exact .inr ⟨_, _, rfl⟩

end OperatorScaffold

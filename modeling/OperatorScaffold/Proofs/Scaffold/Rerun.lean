import OperatorScaffold.Proofs.Marker.Regeneration
import OperatorScaffold.Proofs.Scaffold.Emission
/-!
Emitting again what was emitted: every file is found as it was left, and stays so.
-/

namespace OperatorScaffold

open ArtifactKind Workspace

namespace Policy

variable {policy : Policy} {rendering held text : String} {fresh : Marker.Document}

theorem revises_self (h : Marker.Document.parse rendering = .ok fresh) :
    policy.Revises rendering rendering rendering := by
  unfold Revises
  split
  · have hr := Marker.Document.readable_of_parse h
    obtain ⟨-, -, -, ht⟩ := Marker.Document.parse_eq_ok_iff.1 h
    exact ⟨fresh, fresh, h, h, by rw [Marker.merge_self hr, ht]⟩
  · rfl

theorem Revises.again (h : policy.Revises rendering held text) : policy.Revises rendering text text := by
  unfold Revises at h ⊢
  split at h
  next hp =>
    obtain ⟨fresh, old, hf, ho, rfl⟩ := h
    have hf' := Marker.Document.readable_of_parse hf
    have ho' := Marker.Document.readable_of_parse ho
    rw [if_pos hp]
    exact ⟨fresh, _, hf, Marker.parse_merge hf' ho', by rw [Marker.merge_merged hf' ho']⟩
  next hp => rwa [if_neg hp]

end Policy

/-- A file that its artifact has left holds a text that the artifact does not revise. -/
theorem Revision.settled {policy : Policy} {rendered : Except Template.RenderError String}
    {found : Option Entry} {e : Entry} {o : WriteOutcome} {rendering : String} {fresh : Marker.Document}
    (h : Revision policy rendered found e o) (hp : policy ≠ .skip) (hr : rendered = .ok rendering)
    (hf : Marker.Document.parse rendering = .ok fresh) :
    ∃ held mode, e = .file (.text held) mode ∧ policy.Revises rendering held held := by
  cases h with
  | skipped hs => exact absurd hs hp
  | unchanged hr' _ hrev =>
    obtain rfl := Except.ok.inj (hr'.symm.trans hr)
    exact ⟨_, _, rfl, hrev⟩
  | updated hr' _ hrev _ =>
    obtain rfl := Except.ok.inj (hr'.symm.trans hr)
    exact ⟨_, _, rfl, hrev.again⟩
  | created hr' =>
    obtain rfl := Except.ok.inj (hr'.symm.trans hr)
    exact ⟨_, _, rfl, Policy.revises_self hf⟩

namespace Artifact

variable {a : Artifact} {g : Template.Registry} {m : WriteMode} {c : Template.Context}
  {s s' : Workspace} {q : Place} {e : Entry} {rendering held : String} {mode : Nat}

theorem compose_of_revises {fresh : Marker.Document} (hf : Marker.Document.parse rendering = .ok fresh)
    (h : a.policy.Revises rendering held held) :
    ∃ lost, a.compose rendering fresh (some held) = .ok (held, lost) := by
  unfold Policy.Revises at h
  split at h
  next hp =>
    obtain ⟨fresh', old, hf', ho, ht⟩ := h
    obtain rfl := Except.ok.inj (hf'.symm.trans hf)
    refine ⟨Marker.dropped fresh' old, ?_⟩
    unfold compose
    rw [hp]
    dsimp only
    rw [ho, ht]
    rfl
  next hp =>
    refine ⟨[], ?_⟩
    unfold compose
    rw [h]
    split
    next hp' => exact absurd hp' hp
    next => rfl

/-- A forced artifact that finds a text only asks whether that is its text already. -/
theorem judge_forced_of_held {fresh : Marker.Document} {text : String} {lost : List String} (hp : a.policy ≠ .skip)
    (hr : a.Rendered g c rendering fresh) (hc : a.compose rendering fresh (some held) = .ok (text, lost)) :
    a.judge g true c (some (.file (.text held) mode)) =
      .ok (if held = text then ⟨.unchanged, none, lost⟩ else ⟨.updated, some text, lost⟩) := by
  unfold judge
  simp only [decide_eq_false hp, Bool.and_false, Bool.not_true, Bool.false_eq_true, if_false, hr.render, hr.parse,
    heldText, hc, Except.mapError, bind, Except.bind, Option.some.injEq]
  split
  next => rfl
  next => rfl

/-- What the artifact finds does not change when it is forced. -/
theorem scaffold_settled {fresh : Marker.Document} (hr : a.Rendered g c rendering fresh)
    (hl : s.locate a.destination = .ok (q, .file (.text held) mode))
    (h : a.policy.Revises rendering held held) (hp : a.policy ≠ .skip) :
    ∃ notices, a.scaffold g ⟨true, false⟩ c s = (.ok .unchanged, { s with notices }) := by
  obtain ⟨lost, hc⟩ := compose_of_revises hr.parse h
  have hj : a.judge g true c (s.entry? a.destination) = .ok ⟨.unchanged, none, lost⟩ := by
    rw [entry?_of_locate hl, judge_forced_of_held hp hr hc, if_pos rfl]
  exact ⟨_, scaffold_of_judge hj (.idle (.inl rfl))⟩

/-- A file that holds another text is overwritten. -/
theorem scaffold_overwritten {fresh : Marker.Document} (hr : a.Rendered g c rendering fresh)
    (hl : s.locate a.destination = .ok (q, .file (.text held) mode)) (hp : a.policy = .overwrite)
    (hne : held ≠ rendering) (hw : writeText a.destination rendering s = (.ok (), s')) :
    a.scaffold g ⟨true, false⟩ c s = (.ok .updated, s') := by
  have hc : a.compose rendering fresh (some held) = .ok (rendering, []) := by
    unfold compose
    rw [hp]
    rfl
  have hj : a.judge g true c (s.entry? a.destination) = .ok ⟨.updated, some rendering, []⟩ := by
    rw [entry?_of_locate hl, judge_forced_of_held (by simp [hp]) hr hc, if_neg hne]
  rw [← notified_nil s] at hw
  exact scaffold_of_judge hj (.written rfl rfl hw)

/-- What an artifact has rendered can be read, unless it left the file to the user. -/
theorem rendered_of_scaffold {o : WriteOutcome} (h : a.scaffold g m c s = (.ok o, s')) (ho : o ≠ .skipped) :
    ∃ rendering fresh, a.Rendered g c rendering fresh := by
  obtain ⟨_, -, he, -⟩ | ⟨v, hj, hp⟩ := scaffold_cases h
  · cases he
  generalize s.entry? a.destination = found at hj
  cases judged hj with
  | kept => exact absurd (Except.ok.inj hp.still.1) ho
  | unchanged _ hr => exact ⟨_, _, hr⟩
  | updated _ hr => exact ⟨_, _, hr⟩
  | created hr => exact ⟨_, _, hr⟩

end Artifact

namespace Workload

variable {w : Workload} {g : Template.Registry} {o : ScaffoldOptions} {header : String}
  {s₀ s s' : Workspace} {x : Resource × ArtifactKind} {xs : List (Resource × ArtifactKind)}
  {record : ScaffoldRecord} {records : List ScaffoldRecord}

/-- An artifact that has nothing left to do: its file is the user's, or holds what it makes of it. -/
def AtRest (w : Workload) (g : Template.Registry) (root : Path) (header : String) (s : Workspace)
    (x : Resource × ArtifactKind) : Prop :=
  ∃ q e, s.locate (w.artifactOf root x).destination = .ok (q, e) ∧
    (x.2.policy = .skip ∨ x.2.policy ≠ .skip ∧ ∃ rendering fresh held mode,
      g.render x.2.template (.of w x.1 header) = .ok rendering ∧
      Marker.Document.parse rendering = .ok fresh ∧ e = .file (.text held) mode ∧
      x.2.policy.Revises rendering held held)

/-- What an artifact has rendered in a run that got past it can be read. -/
def Renders (w : Workload) (g : Template.Registry) (header : String) (x : Resource × ArtifactKind)
    (record : ScaffoldRecord) : Prop :=
  record.outcome ≠ .skipped → ∃ rendering fresh,
    g.render x.2.template (.of w x.1 header) = .ok rendering ∧
    Marker.Document.parse rendering = .ok fresh

theorem forall_renders (h : xs.mapM (w.emit g o header) s = (.ok records, s')) :
    xs.Forall₂ (w.Renders g header) records := by
  refine Action.forall₂_of_mapM (fun x record s s' hx ho => ?_) h
  obtain ⟨outcome, mid, hs, rfl, -⟩ := of_emit_ok hx
  obtain ⟨rendering, fresh, hr⟩ := Artifact.rendered_of_scaffold hs ho
  exact ⟨rendering, fresh, hr.render, hr.parse⟩

theorem Emission.atRest (h : w.Emission g o header s₀ s x record) (hr : w.Renders g header x record) :
    w.AtRest g o.output header s x := by
  obtain ⟨q, e, found, hl, -, hrev⟩ := h.file
  refine ⟨q, e, hl, ?_⟩
  by_cases hp : x.2.policy = .skip
  · exact .inl hp
  · have hne : record.outcome ≠ .skipped := by
      intro ho
      rw [ho] at hrev
      cases hrev with
      | skipped hs => exact hp hs
    obtain ⟨rendering, fresh, hren, hf⟩ := hr hne
    obtain ⟨held, mode, he, hheld⟩ := hrev.settled hp hren hf
    exact .inr ⟨hp, rendering, fresh, held, mode, hren, hf, he, hheld⟩

theorem forall_atRest (h : xs.Forall₂ (w.Emission g o header s₀ s) records)
    (hr : xs.Forall₂ (w.Renders g header) records) : ∀ x ∈ xs, w.AtRest g o.output header s x := by
  induction h with
  | nil => exact nofun
  | cons hx _ ih =>
    cases hr with
    | cons hrx hrxs => exact List.forall_mem_cons.2 ⟨hx.atRest hrx, ih hrxs⟩

/-- The outcomes of artifacts that leave their files as they are. -/
def Idle (record : ScaffoldRecord) : Prop := record.outcome = .unchanged ∨ record.outcome = .skipped

theorem AtRest.scaffold (h : w.AtRest g o.output header s x) : ∃ outcome notices,
    (w.artifactOf o.output x).scaffold g ⟨true, false⟩ (.of w x.1 header) s =
      (.ok outcome, { s with notices }) ∧ (outcome = .unchanged ∨ outcome = .skipped) := by
  obtain ⟨q, e, hl, hp | ⟨hp, rendering, fresh, held, mode, hr, hf, rfl, hrev⟩⟩ := h
  · have hj : (w.artifactOf o.output x).judge g true (.of w x.1 header)
        (s.entry? (w.artifactOf o.output x).destination) = .ok ⟨.skipped, none, []⟩ := by
      rw [entry?_of_locate hl]
      exact if_pos (decide_eq_true hp)
    exact ⟨.skipped, _, Artifact.scaffold_of_judge hj (.idle (.inl rfl)), .inr rfl⟩
  · obtain ⟨notices, hs⟩ := Artifact.scaffold_settled (a := w.artifactOf o.output x) ⟨hr, hf⟩ hl hrev hp
    exact ⟨.unchanged, notices, hs, .inl rfl⟩

theorem AtRest.emit (h : w.AtRest g o.output header s x) : ∃ record notices,
    w.emit g { o with mode := ⟨true, false⟩ } header x s = (.ok record, { s with notices }) ∧
      Idle record := by
  obtain ⟨outcome, notices, hs, ho⟩ := h.scaffold
  rw [emit_apply, hs]
  exact ⟨_, _, rfl, ho⟩

/-- Artifacts that are all at rest can be emitted again. -/
theorem mapM_atRest (h : ∀ x ∈ xs, w.AtRest g o.output header s x) : ∃ records notices,
    xs.mapM (w.emit g { o with mode := ⟨true, false⟩ } header) s = (.ok records, { s with notices }) ∧
      ∀ record ∈ records, Idle record := by
  induction xs generalizing s with
  | nil => exact ⟨[], s.notices, rfl, nofun⟩
  | cons x xs ih =>
    obtain ⟨hx, hxs⟩ := List.forall_mem_cons.1 h
    obtain ⟨record, notices, hemit, hidle⟩ := hx.emit
    -- Notices do not change what is found.
    obtain ⟨records, notices', hrest, hall⟩ := ih (s := { s with notices }) hxs
    exact ⟨record :: records, notices', Action.mapM_cons_ok hemit hrest,
      List.forall_mem_cons.2 ⟨hidle, hall⟩⟩

end Workload

end OperatorScaffold

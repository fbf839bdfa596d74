import OperatorScaffold.Proofs.Scaffold.Plan
/-!
Emitting artifacts one after the other, up to the first that fails.
-/

namespace OperatorScaffold

open ArtifactKind Workspace

namespace Workload

variable {w : Workload} {g : Template.Registry} {o : ScaffoldOptions} {header : String}
  {s₀ s s' mid : Workspace} {order : List Resource} {x : Resource × ArtifactKind}
  {xs done : List (Resource × ArtifactKind)} {dests : List Path}

/-- The record of an artifact tells what it is and what became of its file. -/
structure Emission (w : Workload) (g : Template.Registry) (o : ScaffoldOptions) (header : String)
    (s s' : Workspace) (x : Resource × ArtifactKind) (record : ScaffoldRecord) : Prop where
  resource : record.resource = x.1.name
  kind : record.kind = x.2
  path : record.path = (w.artifactOf o.output x).destination
  file : Emitted s s' o.output (w.artifactOf o.output x)
    (g.render x.2.template (.of w x.1 header)) record.outcome

/-- What is told of an artifact: the checks that a dependency file lacks where it is kept. -/
def told (w : Workload) (root : Path) (x : Resource × ArtifactKind) (outcome : WriteOutcome) (s : Workspace) :
    List Notice :=
  if x.2 = .dependencies ∧ outcome = .skipped then
    missingPredicates s (w.artifactOf root x).destination (Template.predicatesOf w x.1)
  else []

theorem emit_apply (w : Workload) (g : Template.Registry) (o : ScaffoldOptions) (header : String)
    (x : Resource × ArtifactKind) (s : Workspace) : w.emit g o header x s =
      match (w.artifactOf o.output x).scaffold g o.mode (.of w x.1 header) s with
      | (.error e, s') => (.error (.scaffold x.1.gvk.text e), s')
      | (.ok outcome, s') => (.ok ⟨x.1.name, x.2, (w.artifactOf o.output x).destination, outcome⟩,
          { s' with notices := s'.notices ++ w.told o.output x outcome s' }) := by
  unfold emit
  cases ha : (w.artifactOf o.output x).scaffold g o.mode (.of w x.1 header) s with
  | mk r mid =>
    cases r with
    | error e => exact Action.bind_apply_error (Action.relabel_error _ ha)
    | ok outcome =>
      dsimp only
      rw [Action.bind_apply_ok (Action.relabel_ok _ ha), told]
      simp only [Bool.and_eq_true, decide_eq_true_eq]
      split
      next =>
        rw [Action.bind_apply_ok (Action.modify_apply _)]
        have hnotify := Artifact.foldl_notify_eq id (missingPredicates mid
          (w.artifactOf o.output x).destination (Template.Context.of w x.1 header).predicates) mid
        rw [List.map_id] at hnotify
        exact congrArg _ hnotify
      next =>
        rw [List.append_nil]
        rfl

/-- An artifact fails as its file does, or is recorded and told of. -/
theorem emit_cases {r : Except Error ScaffoldRecord} (h : w.emit g o header x s = (r, s')) :
    (∃ cause, (w.artifactOf o.output x).scaffold g o.mode (.of w x.1 header) s = (.error cause, s') ∧
      r = .error (.scaffold x.1.gvk.text cause)) ∨
    ∃ outcome mid, (w.artifactOf o.output x).scaffold g o.mode (.of w x.1 header) s = (.ok outcome, mid) ∧
      r = .ok ⟨x.1.name, x.2, (w.artifactOf o.output x).destination, outcome⟩ ∧
      s' = { mid with notices := mid.notices ++ w.told o.output x outcome mid } := by
  rw [emit_apply] at h
  cases ha : (w.artifactOf o.output x).scaffold g o.mode (.of w x.1 header) s with
  | mk r₀ mid =>
    rw [ha] at h
    cases r₀ with
    | error cause =>
      obtain ⟨rfl, rfl⟩ := Prod.mk.inj h
      exact .inl ⟨cause, rfl, rfl⟩
    | ok outcome =>
      obtain ⟨rfl, rfl⟩ := Prod.mk.inj h
      exact .inr ⟨outcome, mid, rfl, rfl, rfl⟩

theorem of_emit_ok {record : ScaffoldRecord} (h : w.emit g o header x s = (.ok record, s')) :
    ∃ outcome mid, (w.artifactOf o.output x).scaffold g o.mode (.of w x.1 header) s = (.ok outcome, mid) ∧
      record = ⟨x.1.name, x.2, (w.artifactOf o.output x).destination, outcome⟩ ∧
      s' = { mid with notices := mid.notices ++ w.told o.output x outcome mid } := by
  obtain ⟨_, -, he⟩ | ⟨outcome, mid, ha, he, hs⟩ := emit_cases h
  · cases he
  · exact ⟨outcome, mid, ha, Except.ok.inj he, hs⟩

theorem of_emit_error {e : Error} (h : w.emit g o header x s = (.error e, s')) :
    ∃ cause, (w.artifactOf o.output x).scaffold g o.mode (.of w x.1 header) s = (.error cause, s') ∧
      e = .scaffold x.1.gvk.text cause := by
  obtain ⟨cause, ha, he⟩ | ⟨_, _, -, he, -⟩ := emit_cases h
  · exact ⟨cause, ha, Except.error.inj he⟩
  · cases he

theorem emit_of_scaffold {outcome : WriteOutcome} (hk : x.2 ≠ .dependencies)
    (h : (w.artifactOf o.output x).scaffold g o.mode (.of w x.1 header) s = (.ok outcome, s')) :
    w.emit g o header x s =
      (.ok ⟨x.1.name, x.2, (w.artifactOf o.output x).destination, outcome⟩, s') := by
  have htold : w.told o.output x outcome s' = [] := if_neg fun hkept => hk hkept.1
  rw [emit_apply, h]
  dsimp only
  rw [htold, List.append_nil]

/-- Where a run of artifacts stands: some came out, others are to come, and the files of those are not
touched yet. -/
structure Midway (w : Workload) (o : ScaffoldOptions) (s₀ s : Workspace) (dests : List Path)
    (done xs : List (Resource × ArtifactKind)) : Prop where
  separate : Separate s₀ o.output dests
  between : Between s₀ s dests (w.destinations o.output done)
  inside : w.destinations o.output xs ⊆ dests
  apart : (w.destinations o.output xs).Pairwise s₀.Apart
  free : ∀ p ∈ w.destinations o.output xs, ∀ p' ∈ w.destinations o.output done, s₀.Apart p p'

namespace Midway

theorem head_inside (h : w.Midway o s₀ s dests done (x :: xs)) : (w.artifactOf o.output x).destination ∈ dests :=
  (List.cons_subset.1 h.inside).1

theorem head_apart (h : w.Midway o s₀ s dests done (x :: xs)) :
    ∀ p ∈ w.destinations o.output xs, s₀.Apart (w.artifactOf o.output x).destination p :=
  (List.pairwise_cons.1 h.apart).1

theorem head_free (h : w.Midway o s₀ s dests done (x :: xs)) :
    ∀ p ∈ w.destinations o.output done, s₀.Apart (w.artifactOf o.output x).destination p :=
  h.free _ List.mem_cons_self

theorem next (h : w.Midway o s₀ s dests done (x :: xs))
    (hb : Between s₀ s' dests (w.destinations o.output (x :: done))) : w.Midway o s₀ s' dests (x :: done) xs where
  separate := h.separate
  between := hb
  inside := (List.cons_subset.1 h.inside).2
  apart := (List.pairwise_cons.1 h.apart).2
  free p hp := List.forall_mem_cons.2 ⟨(h.head_apart p hp).symm, h.free p (List.mem_cons_of_mem _ hp)⟩

theorem step {r : Except Error ScaffoldRecord} (hm : w.Midway o s₀ s dests done (x :: xs))
    (hd : o.mode.dryRun = false) (h : w.emit g o header x s = (r, s')) :
    Touches s₀ s s' [(w.artifactOf o.output x).destination] ∧
    ((∃ e, r = .error e ∧ Between s₀ s' dests (w.destinations o.output done)) ∨
      ∃ record, r = .ok record ∧ w.Midway o s₀ s' dests (x :: done) xs ∧ w.Emission g o header s₀ s' x record) := by
  obtain ⟨cause, ha, rfl⟩ | ⟨outcome, mid, ha, rfl, rfl⟩ := emit_cases h
  · obtain ⟨ht, ⟨_, -, hb⟩ | ⟨_, he, -⟩⟩ :=
      hm.between.step hm.separate hm.head_inside hm.head_free (Artifact.step_scaffold hd ha)
    · exact ⟨ht, .inl ⟨_, rfl, hb⟩⟩
    · cases he
  · obtain ⟨ht, ⟨_, he, -⟩ | ⟨_, he, hb, hemitted⟩⟩ :=
      hm.between.step hm.separate hm.head_inside hm.head_free (Artifact.step_scaffold hd ha)
    · cases he
    · obtain rfl := Except.ok.inj he
      -- What is told changes no file.
      exact ⟨⟨ht.grows, ht.kept⟩,
        .inr ⟨_, rfl, hm.next ⟨hb.grows, hb.files, hb.made⟩, rfl, rfl, rfl, hemitted⟩⟩

end Midway

theorem Emission.keep {record : ScaffoldRecord} {paths : List Path}
    (h : w.Emission g o header s₀ s x record) (hs : Separate s₀ o.output dests)
    (hx : (w.artifactOf o.output x).destination ∈ dests) (hg : s₀.Grows s)
    (ht : Touches s₀ s s' paths)
    (hfree : ∀ p ∈ paths, s₀.Apart (w.artifactOf o.output x).destination p) :
    w.Emission g o header s₀ s' x record :=
  ⟨h.resource, h.kind, h.path, h.file.keep hs hx hg ht hfree⟩

theorem emissions_keep {emitted : List (Resource × ArtifactKind)} {records : List ScaffoldRecord}
    {paths : List Path} (h : emitted.Forall₂ (w.Emission g o header s₀ s) records)
    (hs : Separate s₀ o.output dests) (hx : w.destinations o.output emitted ⊆ dests) (hg : s₀.Grows s)
    (ht : Touches s₀ s s' paths)
    (hfree : ∀ p ∈ w.destinations o.output emitted, ∀ p' ∈ paths, s₀.Apart p p') :
    emitted.Forall₂ (w.Emission g o header s₀ s') records := by
  induction h with
  | nil => exact .nil
  | cons h _ ih =>
    obtain ⟨hx, hxs⟩ := List.cons_subset.1 hx
    obtain ⟨hfx, hfxs⟩ := List.forall_mem_cons.1 hfree
    exact .cons (h.keep hs hx hg ht hfx) (ih hxs hfxs)

/-- A run emits what it was given up to where it fails. -/
theorem Midway.run {r : Except Error (List ScaffoldRecord)} (hm : w.Midway o s₀ s dests done xs)
    (hd : o.mode.dryRun = false) (h : xs.mapM (w.emit g o header) s = (r, s')) :
    Touches s₀ s s' (w.destinations o.output xs) ∧
    ∃ emitted rest records mid, xs = emitted ++ rest ∧
      emitted.mapM (w.emit g o header) s = (.ok records, mid) ∧
      emitted.Forall₂ (w.Emission g o header s₀ s') records ∧
      Between s₀ s' dests (w.destinations o.output (emitted ++ done)) ∧
      (rest = [] ∧ r = .ok records ∧ s' = mid ∨ ∃ x xs' e, rest = x :: xs' ∧ r = .error e ∧
        w.emit g o header x mid = (.error e, s')) := by
  -- on what is left to emit: what is done grows by each artifact that comes out
  induction xs generalizing done s s' r with
  | nil =>
    obtain ⟨rfl, rfl⟩ := Prod.mk.inj h
    exact ⟨.still _ _ _, [], [], [], s, rfl, rfl, .nil, hm.between, .inl ⟨rfl, rfl, rfl⟩⟩
  | cons x xs ih =>
    obtain ⟨e, hone, rfl⟩ | ⟨record, s₁, r', hone, hrest, rfl⟩ := Action.mapM_cons_apply h
    · obtain ⟨ht, ⟨e, -, hb⟩ | ⟨_, he, -⟩⟩ := hm.step hd hone
      · have ht' : Touches s₀ s s' (w.destinations o.output (x :: xs)) :=
          ht.trans (.still _ _ (w.destinations o.output xs))
        exact ⟨ht', [], x :: xs, [], s, rfl, rfl, .nil, hb, .inr ⟨x, xs, _, rfl, rfl, hone⟩⟩
      · cases he
    · obtain ⟨ht₁, ⟨_, he, -⟩ | ⟨_, he, hm₁, hemission⟩⟩ := hm.step hd hone
      · cases he
      · obtain rfl := Except.ok.inj he
        obtain ⟨ht₂, emitted, rest, records, mid, rfl, hmid, hall, hb₂, hend⟩ := ih hm₁ hrest
        have ht : Touches s₀ s s' (w.destinations o.output (x :: (emitted ++ rest))) := ht₁.trans ht₂
        have hfirst := hemission.keep hm.separate hm.head_inside hm₁.between.grows ht₂ hm.head_apart
        have hdone : w.destinations o.output (emitted ++ x :: done) ⊆
            w.destinations o.output (x :: emitted ++ done) := by
          refine List.map_subset _ fun y hy => ?_
          simp only [List.mem_append, List.mem_cons] at hy ⊢
          rwa [or_assoc, or_left_comm]
        refine ⟨ht, x :: emitted, rest, record :: records, mid, rfl, Action.mapM_cons_ok hone hmid,
          .cons hfirst hall, hb₂.weaken hdone, ?_⟩
        obtain ⟨rfl, rfl, rfl⟩ | ⟨y, ys, e, rfl, rfl, hy⟩ := hend
        · exact .inl ⟨rfl, rfl, rfl⟩
        · exact .inr ⟨y, ys, e, rfl, rfl, hy⟩

/-- A run may start with any part of a plan. -/
theorem LaidOut.midway {before after : List (Resource × ArtifactKind)} (h : w.LaidOut order o.scope o.output s)
    (hplan : plan o.scope [] order = before ++ xs ++ after) :
    w.Midway o s s (ProjectFile.path o.output :: w.destinations o.output (plan o.scope [] order)) [] xs := by
  have hsub : xs.Sublist (plan o.scope [] order) := by
    rw [hplan]
    exact (List.sublist_append_right before xs).trans (List.sublist_append_left _ after)
  constructor
  case separate => exact h.separate
  case between => exact .refl s _
  case inside => exact List.subset_cons_of_subset _ (hsub.map _).subset
  case apart => exact h.apart.sublist (hsub.map _)
  case free => exact fun _ _ => nofun

/-- Artifacts of a plan that all come out. -/
theorem LaidOut.emits {before emitted after : List (Resource × ArtifactKind)} {records : List ScaffoldRecord}
    (h : w.LaidOut order o.scope o.output s) (hd : o.mode.dryRun = false)
    (hplan : plan o.scope [] order = before ++ emitted ++ after)
    (hmap : emitted.mapM (w.emit g o header) s = (.ok records, s')) :
    Touches s s s' (w.destinations o.output emitted) ∧
      Between s s' (ProjectFile.path o.output :: w.destinations o.output (plan o.scope [] order))
        (w.destinations o.output emitted) ∧
      emitted.Forall₂ (w.Emission g o header s s') records := by
  obtain ⟨ht, done, last, records', mid', rfl, -, hall, hb, hend⟩ := (h.midway hplan).run hd hmap
  -- Nothing is left to emit, as all came out.
  obtain ⟨rfl, he, rfl⟩ | ⟨_, _, _, -, he, -⟩ := hend
  · obtain rfl := Except.ok.inj he
    rw [List.append_nil] at ht hb ⊢
    exact ⟨ht, hb, hall⟩
  · cases he

theorem LaidOut.emits_all {records : List ScaffoldRecord} (h : w.LaidOut order o.scope o.output s)
    (hd : o.mode.dryRun = false)
    (hmap : (plan o.scope [] order).mapM (w.emit g o header) s = (.ok records, s')) :
    Between s s' (ProjectFile.path o.output :: w.destinations o.output (plan o.scope [] order))
        (w.destinations o.output (plan o.scope [] order)) ∧
      (plan o.scope [] order).Forall₂ (w.Emission g o header s s') records := by
  have hplan : plan o.scope [] order = [] ++ plan o.scope [] order ++ [] := by rw [List.nil_append, List.append_nil]
  exact (h.emits hd hplan hmap).2

end Workload

end OperatorScaffold

import OperatorScaffold.Proofs.CreateApi.Refusal
import OperatorScaffold.Proofs.Scaffold.Again
/-!
What force is for: a controller that is there. Where none is refused, a run is the same with it.
-/

namespace OperatorScaffold

open ArtifactKind Workspace

/-- The options of a run that writes. -/
abbrev ScaffoldOptions.writing (o : ScaffoldOptions) (force : Bool) : ScaffoldOptions :=
  { o with mode := ⟨force, false⟩ }

namespace Artifact

variable {a : Artifact} {g : Template.Registry} {c : Template.Context} {s s' : Workspace}
  {found : Option Entry}

/-- Force makes no difference but for a file that is there and would be refused. -/
theorem judge_forced (h : a.policy = .refuseUnlessForced → found = none) :
    a.judge g true c found = a.judge g false c found := by
  unfold judge
  by_cases hp : a.policy = .refuseUnlessForced
  · simp [h hp]
  · simp [hp]

theorem scaffold_writing (h : a.policy = .refuseUnlessForced → ¬s.has a.destination) :
    a.scaffold g ⟨true, false⟩ c s = a.scaffold g ⟨false, false⟩ c s := by
  rw [scaffold_apply, scaffold_apply, judge_forced fun hp => entry?_of_not_has (h hp)]

theorem scaffold_refused (hp : a.policy = .refuseUnlessForced) (h : s.has a.destination) :
    a.scaffold g ⟨false, false⟩ c s = (.error (.destinationExists a.destination), s) := by
  rw [has_eq_isSome] at h
  have hj : a.judge g false c (s.entry? a.destination) = .error (.destinationExists a.destination) := by
    unfold judge
    simp [hp, h]
    rfl
  rw [scaffold_apply, hj]
  rfl

end Artifact

namespace Workload

variable {w : Workload} {g : Template.Registry} {o : ScaffoldOptions} {header : String}
  {s s' t mid : Workspace} {order : List Resource} {x : Resource × ArtifactKind}
  {xs : List (Resource × ArtifactKind)} {label : String} {p : Path} {cause : Marker.Error}

theorem policy_eq_refuse {root : Path} :
    (w.artifactOf root x).policy = .refuseUnlessForced ↔ x.2 = .controller := by
  obtain ⟨r, k⟩ := x
  cases k <;> simp [artifactOf, Artifact.of, ArtifactKind.policy]

theorem emit_writing (h : x.2 = .controller → ¬s.has (w.artifactOf o.output x).destination) :
    w.emit g (o.writing true) header x s = w.emit g (o.writing false) header x s := by
  have hs := Artifact.scaffold_writing (g := g) (c := .of w x.1 header) fun hp => h (policy_eq_refuse.1 hp)
  exact Action.bind_congr_at (Action.relabel_congr_at hs _) _

theorem emit_refused (hk : x.2 = .controller) (h : s.has (w.artifactOf o.output x).destination) :
    w.emit g (o.writing false) header x s =
      (.error (.scaffold x.1.gvk.text (.destinationExists (w.artifactOf o.output x).destination)), s) := by
  have hs := Artifact.scaffold_refused (g := g) (c := .of w x.1 header) (policy_eq_refuse.2 hk) h
  exact Action.bind_apply_error (Action.relabel_error _ hs)

/-- Artifacts that are emitted without being refused are emitted so with force. -/
theorem mapM_writing (h : ∀ label p s', xs.mapM (w.emit g (o.writing false) header) s ≠
      (.error (.scaffold label (.destinationExists p)), s')) :
    xs.mapM (w.emit g (o.writing true) header) s = xs.mapM (w.emit g (o.writing false) header) s := by
  induction xs generalizing s with
  | nil => rw [List.mapM_nil, List.mapM_nil]
  | cons x xs ih =>
    have hx : x.2 = .controller → ¬s.has (w.artifactOf o.output x).destination := fun hk hhas => by
      refine h x.1.gvk.text (w.artifactOf o.output x).destination s ?_
      rw [List.mapM_cons, Action.bind_apply_error (emit_refused hk hhas)]
    rw [List.mapM_cons, List.mapM_cons, Action.bind_congr_at (emit_writing hx)]
    cases hone : w.emit g (o.writing false) header x s with
    | mk r mid =>
      cases r with
      | error e => rw [Action.bind_apply_error hone, Action.bind_apply_error hone]
      | ok record =>
        rw [Action.bind_apply_ok hone, Action.bind_apply_ok hone]
        refine Action.bind_congr_at (ih fun label p s' hxs => h label p s' ?_) _
        rw [List.mapM_cons, Action.bind_apply_ok hone, Action.bind_apply_error hxs]

/-- Artifacts that have nothing left to do are emitted again, with force or where none could be refused. -/
theorem mapM_settled {force : Bool} (hrest : ∀ x ∈ xs, w.AtRest g o.output header s x)
    (hforce : force = false → ∀ x ∈ xs, x.2 ≠ .controller) : ∃ records notices,
    xs.mapM (w.emit g (o.writing force) header) s = (.ok records, { s with notices }) := by
  obtain ⟨records, notices, hmap, -⟩ := mapM_atRest (o := o) hrest
  refine ⟨records, notices, ?_⟩
  cases force with
  | true => exact hmap
  | false =>
    rw [← mapM_writing fun label p s' h => ?_]
    · exact hmap
    · obtain ⟨before, x, after, _, _, hxs, -, hx⟩ := Action.mapM_eq_error h
      exact hforce rfl x (by simp [hxs]) (refuses_of_emit hx).1

end Workload

end OperatorScaffold

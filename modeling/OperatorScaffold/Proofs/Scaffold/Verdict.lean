import OperatorScaffold.Proofs.Files.Action
import OperatorScaffold.Proofs.Files.Leading
import OperatorScaffold.Scaffold.Artifact
/-!
An artifact decides by what it finds at its destination. Writing its text is all that comes after.
-/

namespace OperatorScaffold

open Workspace

namespace Workspace

variable {s s' : Workspace} {p : Path} {q : Place} {e : Entry}

def entry? (s : Workspace) (p : Path) : Option Entry :=
  match s.locate p with
  | .ok (_, e) => some e
  | .error _ => none

theorem entry?_of_locate (h : s.locate p = .ok (q, e)) : s.entry? p = some e := by
  rw [Workspace.entry?, h]

theorem locate_of_entry? (h : s.entry? p = some e) : ∃ q, s.locate p = .ok (q, e) := by
  unfold entry? at h
  split at h
  next q _ hl =>
    cases h
    exact ⟨q, hl⟩
  next => cases h

theorem has_eq_isSome (s : Workspace) (p : Path) : s.has p = (s.entry? p).isSome := by
  unfold has entry?
  cases s.locate p <;> rfl

theorem entry?_of_not_has (h : ¬s.has p) : s.entry? p = none := by
  rwa [has_eq_isSome, Bool.not_eq_true, Option.isSome_eq_false_iff, Option.isNone_iff_eq_none] at h

theorem not_has_of_entry?_eq_none (h : s.entry? p = none) : ¬s.has p := by
  rw [has_eq_isSome, h]
  exact Bool.false_ne_true

theorem readText_eq_ok {text : String} (h : s.readText p = .ok text) :
    ∃ q mode, s.locate p = .ok (q, .file (.text text) mode) := by
  unfold readText at h
  split at h
  next => cases h
  next q t mode hl =>
    cases h
    exact ⟨q, mode, hl⟩
  next => cases h
  next => cases h

theorem readText_congr (hp : s.has p) (h : s'.entry? p = s.entry? p) : s'.readText p = s.readText p := by
  obtain ⟨q, e, hl⟩ := has_iff.1 hp
  rw [entry?_of_locate hl] at h
  obtain ⟨q', hl'⟩ := locate_of_entry? h
  rw [readText, readText, hl, hl']
  cases e with
  | file c m => cases c <;> rfl
  | directory => rfl
  | link target => rfl

end Workspace

/-- The text of what was found at a path. -/
def heldText (p : Path) : Option Entry → Except ScaffoldError (Option String)
  | none => .ok none
  | some (.file (.text held) _) => .ok (some held)
  | some (.file (.binary _) _) => .error (.io p .notText)
  | some _ => .error (.io p .isDirectory)

theorem heldText_eq_error {p : Path} {found : Option Entry} {e : ScaffoldError}
    (h : heldText p found = .error e) : ∃ cause, e = .io p cause := by
  unfold heldText at h
  split at h <;> cases h
  · exact ⟨_, rfl⟩
  · exact ⟨_, rfl⟩

theorem heldText_eq_ok {p : Path} {found : Option Entry} {held : Option String} (h : heldText p found = .ok held) :
    found = none ∧ held = none ∨ ∃ text mode, found = some (.file (.text text) mode) ∧ held = some text := by
  unfold heldText at h
  split at h <;> cases h
  · exact .inl ⟨rfl, rfl⟩
  · exact .inr ⟨_, _, rfl, rfl⟩

/-- What an artifact makes of what it finds. -/
structure Verdict where
  outcome : WriteOutcome
  /-- The text to write, if any. -/
  text? : Option String
  lost : List String

namespace Artifact

def judge (a : Artifact) (g : Template.Registry) (force : Bool) (c : Template.Context)
    (found : Option Entry) : Except ScaffoldError Verdict := do
  if found.isSome && a.policy = .skip then return ⟨.skipped, none, []⟩
  if found.isSome && a.policy = .refuseUnlessForced && !force then
    throw (.destinationExists a.destination)
  let rendered ← (g.render a.template c).mapError .template
  let fresh ← (Marker.Document.parse rendered).mapError (.invalidTemplate a.template)
  let held ← heldText a.destination found
  let (text, lost) ← a.compose rendered fresh held
  if held = some text then return ⟨.unchanged, none, lost⟩
  return ⟨if held.isSome then .updated else .created, some text, lost⟩

variable {a : Artifact} {g : Template.Registry} {m : WriteMode} {c : Template.Context} {force : Bool}
  {found : Option Entry} {s s' : Workspace} {r : Except ScaffoldError WriteOutcome}

theorem existing?_eq (s : Workspace) (p : Path) : existing? s p = heldText p (s.entry? p) := by
  unfold existing? Workspace.has Workspace.readText Workspace.entry?
  cases s.locate p with
  | error e => rfl
  | ok r =>
    obtain ⟨q, e⟩ := r
    cases e with
    | file c m => cases c <;> rfl
    | directory => rfl
    | link target => rfl

/-- What is done about a verdict. -/
def perform (a : Artifact) (dryRun : Bool) (v : Verdict) : Action ScaffoldError WriteOutcome := do
  modify fun w => v.lost.foldl (fun w name => w.notify (.droppedRegion a.destination name)) w
  match v.text? with
  | none => return v.outcome
  | some text =>
    if !dryRun then
      writeText a.destination text |>.relabel fun (p, e) => .io p e
    return v.outcome

theorem scaffold_apply (a : Artifact) (g : Template.Registry) (m : WriteMode) (c : Template.Context)
    (s : Workspace) : a.scaffold g m c s =
      (liftExcept (a.judge g m.force c (s.entry? a.destination)) >>= a.perform m.dryRun) s := by
  unfold scaffold judge
  rw [Action.bind_apply_ok Action.get_apply]
  simp only [has_eq_isSome, existing?_eq]
  split
  next => rfl
  next =>
    split
    next => rfl
    next =>
      rw [Action.liftExcept_bind]
      refine congrFun (bind_congr fun rendered => ?_) s
      rw [Action.liftExcept_bind]
      refine bind_congr fun fresh => ?_
      rw [Action.liftExcept_bind]
      refine bind_congr fun held => ?_
      rw [Action.liftExcept_bind]
      refine bind_congr fun composed => ?_
      split
      next => rfl
      next => rfl

/-- Why an artifact can fail before anything is written. -/
inductive Fault (a : Artifact) (g : Template.Registry) (force : Bool) (c : Template.Context)
    (found : Option Entry) : ScaffoldError → Prop
  | refused : a.policy = .refuseUnlessForced → force = false → found ≠ none →
      Fault a g force c found (.destinationExists a.destination)
  | template {cause : Template.RenderError} : g.render a.template c = .error cause →
      Fault a g force c found (.template cause)
  | invalid {rendering : String} {cause : Marker.Error} : g.render a.template c = .ok rendering →
      Marker.Document.parse rendering = .error cause →
      Fault a g force c found (.invalidTemplate a.template cause)
  | unread {cause : FileError} : heldText a.destination found = .error (.io a.destination cause) →
      Fault a g force c found (.io a.destination cause)
  | conflict {held : String} {mode : Nat} {cause : Marker.Error} : a.policy = .merge →
      found = some (.file (.text held) mode) → Marker.Document.parse held = .error cause →
      Fault a g force c found (.mergeConflict a.destination cause)

/-- A file that is there is neither kept nor refused. -/
structure Admits (a : Artifact) (force : Bool) : Prop where
  not_kept : a.policy ≠ .skip
  forced : a.policy = .refuseUnlessForced → force

/-- The template gives a text whose regions can be read. -/
structure Rendered (a : Artifact) (g : Template.Registry) (c : Template.Context) (rendering : String)
    (fresh : Marker.Document) : Prop where
  render : g.render a.template c = .ok rendering
  parse : Marker.Document.parse rendering = .ok fresh

/-- What an artifact may decide. -/
inductive Judged (a : Artifact) (g : Template.Registry) (force : Bool) (c : Template.Context) :
    Option Entry → Except ScaffoldError Verdict → Prop
  | kept {e : Entry} : a.policy = .skip → Judged a g force c (some e) (.ok ⟨.skipped, none, []⟩)
  | failed {found : Option Entry} {e : ScaffoldError} : a.Fault g force c found e →
      Judged a g force c found (.error e)
  | unchanged {rendering held : String} {fresh : Marker.Document} {lost : List String} {mode : Nat} :
      a.Admits force → a.Rendered g c rendering fresh →
      a.compose rendering fresh (some held) = .ok (held, lost) →
      Judged a g force c (some (.file (.text held) mode)) (.ok ⟨.unchanged, none, lost⟩)
  | updated {rendering held text : String} {fresh : Marker.Document} {lost : List String} {mode : Nat} :
      a.Admits force → a.Rendered g c rendering fresh →
      a.compose rendering fresh (some held) = .ok (text, lost) → held ≠ text →
      Judged a g force c (some (.file (.text held) mode)) (.ok ⟨.updated, some text, lost⟩)
  | created {rendering : String} {fresh : Marker.Document} : a.Rendered g c rendering fresh →
      Judged a g force c none (.ok ⟨.created, some rendering, []⟩)

theorem compose_eq_error {rendering : String} {fresh : Marker.Document} {existing : Option String} {e : ScaffoldError}
    (h : a.compose rendering fresh existing = .error e) : a.policy = .merge ∧ ∃ held cause, existing = some held ∧
      Marker.Document.parse held = .error cause ∧ e = .mergeConflict a.destination cause := by
  unfold compose at h
  split at h
  next hp =>
    obtain h | ⟨_, -, h⟩ := bind_eq_error.1 h
    · obtain ⟨cause, ho, rfl⟩ := mapError_eq_error.1 h
      exact ⟨hp, _, cause, rfl, ho, rfl⟩
    · cases h
  next => cases h

/-- A rendering in front of what was found: it is composed with the text that is held, and compared. -/
theorem judged_of_rendered {rendering : String} {fresh : Marker.Document} {held : Option String}
    {v : Except ScaffoldError Verdict} (hadmits : found ≠ none → a.Admits force)
    (hr : a.Rendered g c rendering fresh) (hheld : heldText a.destination found = .ok held)
    (h : (do
      let (text, lost) ← a.compose rendering fresh held
      if held = some text then return ⟨.unchanged, none, lost⟩
      return ⟨if held.isSome then .updated else .created, some text, lost⟩ : Except ScaffoldError Verdict) = v) :
    a.Judged g force c found v := by
  subst h
  obtain ⟨rfl, rfl⟩ | ⟨text, mode, rfl, rfl⟩ := heldText_eq_ok hheld
  · exact .created hr
  · have hadmits := hadmits (Option.some_ne_none _)
    cases hc : a.compose rendering fresh (some text) with
    | error e =>
      obtain ⟨hp, _, cause, hsome, ho, rfl⟩ := compose_eq_error hc
      obtain rfl := Option.some.inj hsome
      exact .failed (.conflict hp rfl ho)
    | ok composed =>
      obtain ⟨text', lost⟩ := composed
      by_cases he : text = text'
      · subst he
        simp only [bind, Except.bind, if_true]
        exact .unchanged hadmits hr hc
      · have hne : some text ≠ some text' := fun h => he (Option.some.inj h)
        simp only [bind, Except.bind, if_neg hne]
        exact .updated hadmits hr hc he

theorem judged {v : Except ScaffoldError Verdict} (h : a.judge g force c found = v) : a.Judged g force c found v := by
  unfold judge at h
  split at h
  next hkept =>
    obtain ⟨hfound, hp⟩ := Bool.and_eq_true_iff.1 hkept
    obtain ⟨e, rfl⟩ := Option.isSome_iff_exists.1 hfound
    cases h
    exact .kept (of_decide_eq_true hp)
  next hkept =>
  split at h
  next hrefused =>
    cases h
    simp only [Bool.and_eq_true, decide_eq_true_eq, Bool.not_eq_true'] at hrefused
    exact .failed (.refused hrefused.1.2 hrefused.2 (Option.isSome_iff_ne_none.1 hrefused.1.1))
  next hrefused =>
  have hadmits (hfound : found ≠ none) : a.Admits force := by
    simp only [Option.isSome_iff_ne_none.2 hfound, Bool.true_and, decide_eq_true_eq] at hkept hrefused
    exact ⟨hkept, fun hp => by simpa [hp] using hrefused⟩
  obtain ⟨_, he, rfl⟩ | ⟨rendering, hrender, h⟩ := bind_cases h
  · obtain ⟨cause, hrender, rfl⟩ := mapError_eq_error.1 he
    exact .failed (.template hrender)
  rw [mapError_eq_ok] at hrender
  obtain ⟨_, he, rfl⟩ | ⟨fresh, hparse, h⟩ := bind_cases h
  · obtain ⟨cause, hparse, rfl⟩ := mapError_eq_error.1 he
    exact .failed (.invalid hrender hparse)
  rw [mapError_eq_ok] at hparse
  obtain ⟨_, he, rfl⟩ | ⟨held, hheld, h⟩ := bind_cases h
  · obtain ⟨cause, rfl⟩ := heldText_eq_error he
    exact .failed (.unread he)
  exact judged_of_rendered hadmits ⟨hrender, hparse⟩ hheld h

theorem fault_of_judge {e : ScaffoldError} (h : a.judge g force c found = .error e) : a.Fault g force c found e := by
  cases judged h with
  | failed hfault => exact hfault

theorem foldl_notify_eq {α : Type} (f : α → Notice) (as : List α) (s : Workspace) :
    as.foldl (fun s a => s.notify (f a)) s = { s with notices := s.notices ++ as.map f } := by
  induction as generalizing s with
  | nil => simp
  | cons a as ih => exact (ih _).trans (by simp [notify])

theorem foldl_notify {α : Type} (f : α → Notice) (as : List α) (s : Workspace) :
    ∃ notices, as.foldl (fun s a => s.notify (f a)) s = { s with notices } :=
  ⟨_, foldl_notify_eq f as s⟩

/-- The regions that a file loses are told. -/
def notified (a : Artifact) (lost : List String) (s : Workspace) : Workspace :=
  { s with notices := s.notices ++ lost.map (.droppedRegion a.destination) }

theorem foldl_lost (a : Artifact) (lost : List String) (s : Workspace) :
    lost.foldl (fun s name => s.notify (.droppedRegion a.destination name)) s = a.notified lost s :=
  foldl_notify_eq _ lost s

theorem notified_nil (s : Workspace) : a.notified [] s = s := by
  simp [notified]

/-- How a verdict may end. What is lost is told before anything is written. -/
inductive Performs (a : Artifact) (dryRun : Bool) (v : Verdict) (s : Workspace) :
    Except ScaffoldError WriteOutcome → Workspace → Prop
  | idle : v.text? = none ∨ dryRun → Performs a dryRun v s (.ok v.outcome) (a.notified v.lost s)
  | written {text : String} {s' : Workspace} : v.text? = some text → dryRun = false →
      writeText a.destination text (a.notified v.lost s) = (.ok (), s') → Performs a dryRun v s (.ok v.outcome) s'
  | unwritten {text : String} {q : Path} {cause : FileError} {s' : Workspace} : v.text? = some text →
      dryRun = false → writeText a.destination text (a.notified v.lost s) = (.error (q, cause), s') →
      Performs a dryRun v s (.error (.io q cause)) s'

theorem performs {v : Verdict} {dryRun : Bool} (h : a.perform dryRun v s = (r, s')) : a.Performs dryRun v s r s' := by
  obtain ⟨outcome, text?, lost⟩ := v
  unfold perform at h
  rw [Action.bind_apply_ok (Action.modify_apply _), foldl_lost] at h
  cases text? with
  | none =>
    cases h
    exact .idle (.inl rfl)
  | some text =>
    cases dryRun with
    | true =>
      cases h
      exact .idle (.inr rfl)
    | false =>
      dsimp only at h
      rw [if_pos (by decide)] at h
      obtain ⟨_, hrelabel, rfl⟩ | ⟨_, mid, hrelabel, h⟩ := Action.bind_apply h
      · obtain ⟨_, hw, rfl⟩ := Action.of_relabel_error hrelabel
        exact .unwritten rfl rfl hw
      · cases h
        exact .written rfl rfl (Action.of_relabel_ok hrelabel)

theorem Performs.perform_eq {v : Verdict} {dryRun : Bool} (h : a.Performs dryRun v s r s') :
    a.perform dryRun v s = (r, s') := by
  obtain ⟨outcome, text?, lost⟩ := v
  unfold perform
  rw [Action.bind_apply_ok (Action.modify_apply _), foldl_lost]
  cases h with
  | idle ht =>
    obtain rfl | rfl := ht
    · rfl
    · cases text? <;> rfl
  | written ht hd hw =>
    subst ht hd
    dsimp only
    rw [if_pos (by decide), Action.bind_apply_ok (Action.relabel_ok _ hw)]
    rfl
  | unwritten ht hd hw =>
    subst ht hd
    dsimp only
    rw [if_pos (by decide), Action.bind_apply_error (Action.relabel_error _ hw)]

/-- An artifact fails before anything is written, or does what it decided. -/
theorem scaffold_cases (h : a.scaffold g m c s = (r, s')) :
    (∃ e, a.judge g m.force c (s.entry? a.destination) = .error e ∧ r = .error e ∧ s' = s) ∨
      ∃ v, a.judge g m.force c (s.entry? a.destination) = .ok v ∧ a.Performs m.dryRun v s r s' := by
  rw [scaffold_apply] at h
  obtain h | ⟨v, hj, h⟩ := Action.liftExcept_bind_apply h
  · exact .inl h
  · exact .inr ⟨v, hj, performs h⟩

theorem scaffold_of_judge {v : Verdict} (hj : a.judge g m.force c (s.entry? a.destination) = .ok v)
    (hp : a.Performs m.dryRun v s r s') : a.scaffold g m c s = (r, s') := by
  rw [scaffold_apply, Action.liftExcept_bind_ok hj, hp.perform_eq]

/-- Writing a text to a path is what failed last. -/
def WriteFailed (p : Path) (s' : Workspace) (e : ScaffoldError) : Prop :=
  ∃ text mid q cause, writeText p text mid = (.error (q, cause), s') ∧ e = .io q cause

/-- An artifact comes to what it decided, or its text cannot be written. A dry run writes nothing. -/
theorem scaffold_judged (h : a.scaffold g m c s = (r, s')) :
    (m.dryRun → ∃ notices, s' = { s with notices }) ∧
      (r = (a.judge g m.force c (s.entry? a.destination)).map (·.outcome) ∨
        m.dryRun = false ∧ ∃ e, r = .error e ∧ WriteFailed a.destination s' e) := by
  obtain ⟨e, hj, rfl, rfl⟩ | ⟨v, hj, hp⟩ := scaffold_cases h <;> rw [hj]
  · exact ⟨fun _ => ⟨s'.notices, rfl⟩, .inl rfl⟩
  · cases hp with
    | idle => exact ⟨fun _ => ⟨s.notices ++ v.lost.map (.droppedRegion a.destination), rfl⟩, .inl rfl⟩
    | written _ hd _ => exact ⟨fun hdry => absurd (hd.symm.trans hdry) Bool.false_ne_true, .inl rfl⟩
    | unwritten _ hd hw =>
      exact ⟨fun hdry => absurd (hd.symm.trans hdry) Bool.false_ne_true, .inr ⟨hd, _, rfl, _, _, _, _, hw, rfl⟩⟩

end Artifact

end OperatorScaffold

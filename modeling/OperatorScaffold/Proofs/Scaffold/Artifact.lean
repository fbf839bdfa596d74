import OperatorScaffold.Proofs.Scaffold.Verdict
/-!
What scaffolding one artifact can do to a workspace.
-/

namespace OperatorScaffold

open Workspace

/-- What a rendering makes of the text that a file holds. -/
def Policy.Revises (policy : Policy) (rendering held text : String) : Prop :=
  if policy = .merge then ∃ fresh old, Marker.Document.parse rendering = .ok fresh ∧
    Marker.Document.parse held = .ok old ∧ text = (Marker.merge fresh old).render
  else text = rendering

namespace Artifact

variable {a : Artifact} {g : Template.Registry} {m : WriteMode} {c : Template.Context}
  {s s' : Workspace} {r : Except ScaffoldError WriteOutcome}

/-- How scaffolding an artifact may end. Notices are given before anything is written. -/
inductive Step (a : Artifact) (g : Template.Registry) (c : Template.Context) (s : Workspace) :
    Except ScaffoldError WriteOutcome → Workspace → Prop
  | skipped : a.policy = .skip → s.has a.destination → Step a g c s (.ok .skipped) s
  | failed {e : ScaffoldError} {notices : List Notice} {s' : Workspace} :
      Makes a.destination.OnWay { s with notices } s' → Step a g c s (.error e) s'
  | unchanged {rendering held : String} {q : Place} {mode : Nat} {notices : List Notice} :
      g.render a.template c = .ok rendering → a.policy ≠ .skip →
      s.locate a.destination = .ok (q, .file (.text held) mode) →
      a.policy.Revises rendering held held → Step a g c s (.ok .unchanged) { s with notices }
  | updated {rendering held text : String} {q d : Place} {n : String} {mode : Nat}
      {notices : List Notice} {mid : Workspace} :
      g.render a.template c = .ok rendering → a.policy ≠ .skip →
      s.locate a.destination = .ok (q, .file (.text held) mode) →
      a.policy.Revises rendering held text → held ≠ text →
      Makes a.destination.OnWay { s with notices } mid → mid.Opens a.destination d n →
      Step a g c s (.ok .updated)
        (mid.put (d ++ [n]) (.file (.text text) (mid.modeAt a.destination)))
  | created {rendering : String} {d : Place} {n : String} {notices : List Notice} {mid : Workspace} :
      g.render a.template c = .ok rendering → ¬s.has a.destination →
      Makes a.destination.OnWay { s with notices } mid → mid.Opens a.destination d n →
      Step a g c s (.ok .created)
        (mid.put (d ++ [n]) (.file (.text rendering) (mid.modeAt a.destination)))

theorem compose_some {rendering held text : String} {fresh : Marker.Document} {lost : List String}
    (hf : Marker.Document.parse rendering = .ok fresh)
    (h : a.compose rendering fresh (some held) = .ok (text, lost)) :
    a.policy.Revises rendering held text := by
  unfold compose at h
  unfold Policy.Revises
  split at h
  next hc hp =>
    cases hc
    obtain ⟨old, ho, h⟩ := bind_eq_ok.1 h
    cases h
    rw [if_pos hp]
    exact ⟨fresh, old, hf, mapError_eq_ok.1 ho, rfl⟩
  next hne =>
    cases h
    rw [if_neg (hne held rfl)]

/-- A text that is to be written, and is or is not. -/
theorem Performs.write {outcome : WriteOutcome} {text : String} {lost : List String}
    (h : a.Performs false ⟨outcome, some text, lost⟩ s r s') :
    ∃ notices mid, Makes a.destination.OnWay { s with notices } mid ∧
      ((∃ e, r = .error e ∧ s' = mid) ∨ r = .ok outcome ∧ ∃ d n, mid.Opens a.destination d n ∧
        s' = mid.put (d ++ [n]) (.file (.text text) (mid.modeAt a.destination))) := by
  cases h with
  | idle ht => simp at ht
  | written ht _ hw =>
    obtain rfl := Option.some.inj ht
    obtain ⟨mid, hm, ⟨_, he, -⟩ | ⟨-, d, n, ho, rfl⟩⟩ := writeText_spec hw
    · cases he
    · exact ⟨_, mid, hm, .inr ⟨rfl, d, n, ho, rfl⟩⟩
  | unwritten ht _ hw =>
    obtain rfl := Option.some.inj ht
    obtain ⟨mid, hm, ⟨_, -, rfl⟩ | ⟨he, -⟩⟩ := writeText_spec hw
    · exact ⟨_, _, hm, .inl ⟨_, rfl, rfl⟩⟩
    · cases he

theorem Performs.still {outcome : WriteOutcome} {lost : List String} {dryRun : Bool}
    (h : a.Performs dryRun ⟨outcome, none, lost⟩ s r s') : r = .ok outcome ∧ s' = a.notified lost s := by
  cases h with
  | idle => exact ⟨rfl, rfl⟩
  | written ht => cases ht
  | unwritten ht => cases ht

theorem step_scaffold (hd : m.dryRun = false) (h : a.scaffold g m c s = (r, s')) :
    a.Step g c s r s' := by
  obtain ⟨e, -, rfl, rfl⟩ | ⟨v, hj, hp⟩ := scaffold_cases h
  · exact .failed .still
  rw [hd] at hp
  generalize hfound : s.entry? a.destination = found at hj
  cases judged hj with
  | kept hskip =>
    obtain ⟨q, hl⟩ := locate_of_entry? hfound
    obtain ⟨rfl, rfl⟩ := hp.still
    rw [notified_nil]
    exact .skipped hskip (has_iff.2 ⟨q, _, hl⟩)
  | unchanged hadmits hr hc =>
    obtain ⟨q, hl⟩ := locate_of_entry? hfound
    obtain ⟨rfl, rfl⟩ := hp.still
    exact .unchanged hr.render hadmits.not_kept hl (compose_some hr.parse hc)
  | updated hadmits hr hc hne =>
    obtain ⟨q, hl⟩ := locate_of_entry? hfound
    obtain ⟨notices, mid, hm, ⟨e, rfl, rfl⟩ | ⟨rfl, d, n, ho, rfl⟩⟩ := hp.write
    · exact .failed hm
    · exact .updated hr.render hadmits.not_kept hl (compose_some hr.parse hc) hne hm ho
  | created hr =>
    obtain ⟨notices, mid, hm, ⟨e, rfl, rfl⟩ | ⟨rfl, d, n, ho, rfl⟩⟩ := hp.write
    · exact .failed hm
    · exact .created hr.render (not_has_of_entry?_eq_none hfound) hm ho

end Artifact

end OperatorScaffold

import OperatorScaffold.Proofs.Scaffold.Artifact
/-!
Artifacts one after the other: when their destinations are kept apart, each file comes out as if its
artifact were the only one.
-/

namespace OperatorScaffold

open FileTree Workspace

/-- What an artifact makes of what it finds at its destination, and the outcome it reports. -/
inductive Revision (policy : Policy) (rendered : Except Template.RenderError String) :
    Option Entry → Entry → WriteOutcome → Prop
  | skipped {e : Entry} : policy = .skip → Revision policy rendered (some e) e .skipped
  | unchanged {rendering held : String} {mode : Nat} : rendered = .ok rendering → policy ≠ .skip →
      policy.Revises rendering held held →
      Revision policy rendered (some (.file (.text held) mode)) (.file (.text held) mode) .unchanged
  | updated {rendering held text : String} {mode : Nat} : rendered = .ok rendering →
      policy ≠ .skip → policy.Revises rendering held text → held ≠ text →
      Revision policy rendered (some (.file (.text held) mode)) (.file (.text text) mode) .updated
  | created {rendering : String} {mode : Nat} : rendered = .ok rendering →
      Revision policy rendered none (.file (.text rendering) mode) .created

namespace Workspace

def Apart (s : Workspace) (p p' : Path) : Prop := ∀ q, s.LeadsTo p q → ¬s.LeadsTo p' q

theorem Apart.symm {s : Workspace} {p p' : Path} (h : s.Apart p p') : s.Apart p' p :=
  fun q hq' hq => h q hq hq'

/-- The file at a place is the same, or is not there before and after. -/
def Keeps (s s' : Workspace) (q : Place) : Prop :=
  ∀ c m, s'.files.at? q = some (.file c m) ↔ s.files.at? q = some (.file c m)

/-- No file changes but those that some paths lead to. -/
def KeepsBut (s s' : Workspace) (paths : List Path) : Prop :=
  ∀ q, (∀ p ∈ paths, ¬s.LeadsTo p q) → s.Keeps s' q

theorem KeepsBut.mono {s s' : Workspace} {paths paths' : List Path} (h : s.KeepsBut s' paths)
    (hp : paths ⊆ paths') : s.KeepsBut s' paths' :=
  fun q hq => h q fun p hp' => hq p (hp hp')

theorem KeepsBut.keeps {s s' : Workspace} {paths rest : List Path} (h : s.KeepsBut s' paths)
    (ha : ∀ p ∈ rest, ∀ p' ∈ paths, s.Apart p p') : ∀ p ∈ rest, ∀ q, s.LeadsTo p q → s.Keeps s' q :=
  fun p hp q hq => h q fun p' hp' => ha p hp p' hp' q hq

end Workspace

/-- Destinations below a root where files can be put one by one, however the workspace grows. -/
structure Separate (s : Workspace) (root : Path) (dests : List Path) : Prop where
  ends : ∀ p ∈ dests, ∀ s' q e, s.Grows s' → s'.locate p = .ok (q, e) → s'.files.at? q = some e
  no_link : ∀ p ∈ dests, ∀ s' d n target, s.Grows s' → s'.Opens p d n →
    s.files.at? (d ++ [n]) ≠ some (.link target)
  clear : ∀ p ∈ dests, ¬s.has p → ¬s.Obscured root p → ∀ q, s.LeadsTo p q →
    s.files.at? q = none ∧ ∀ p' ∈ dests, ∀ a, p'.OnWay a → ¬s.LeadsTo a q

/-- A workspace `s'` on the way from `s`, where files were written to the destinations in `done` only
and directories were made for destinations. -/
structure Between (s s' : Workspace) (dests done : List Path) : Prop where
  grows : s.Grows s'
  files : s.KeepsBut s' done
  made : ∀ q, s.files.at? q = none → s'.files.at? q = some .directory →
    ∃ p ∈ dests, ∃ a, p.OnWay a ∧ s'.locate a = .ok (q, .directory)

variable {s s₀ s' mid : Workspace} {root p : Path} {dests done : List Path} {q : Place} {e : Entry}

/-- A workspace grows, and what is there changes only where some paths lead. -/
structure Touches (s₀ s s' : Workspace) (paths : List Path) : Prop where
  grows : s.Grows s'
  kept : ∀ q e, s.files.at? q = some e → (∀ p ∈ paths, ¬s₀.LeadsTo p q) → s'.files.at? q = some e

theorem Touches.still (s₀ s : Workspace) (paths : List Path) : Touches s₀ s s paths :=
  ⟨.refl s, fun _ _ he _ => he⟩

theorem Touches.trans {paths paths' : List Path} (h : Touches s₀ s mid paths)
    (h' : Touches s₀ mid s' paths') : Touches s₀ s s' (paths ++ paths') where
  grows := h.grows.trans h'.grows
  kept q e he hq := by
    obtain ⟨hq, hq'⟩ := List.forall_mem_append.1 hq
    exact h'.kept q e (h.kept q e he hq) hq'

theorem Touches.notices (s₀ s : Workspace) (notices : List Notice) :
    Touches s₀ s { s with notices } [] :=
  ⟨⟨rfl, .refl _⟩, fun _ _ he _ => he⟩

theorem Workspace.Makes.touches {ways : Path → Prop} (h : Makes ways s s') (paths : List Path) :
    Touches s₀ s s' paths :=
  ⟨h.grows, fun _ _ he _ => h.kept he⟩

theorem Between.refl (s : Workspace) (dests : List Path) : Between s s dests [] where
  grows := .refl s
  files _ _ _ _ := .rfl
  made q h h' := by simp [h] at h'

theorem Between.makes (hb : Between s₀ s dests done) (hp : p ∈ dests) {notices : List Notice}
    (hm : Makes p.OnWay { s with notices } mid) :
    Between s₀ mid dests done where
  grows := hb.grows.trans hm.grows
  files q hq c m := by
    rw [← hb.files q hq c m]
    obtain h | ⟨hn, hd, -⟩ := hm.at? q
    · rw [h]
    · rw [hd, show s.files.at? q = none from hn]
      simp
  made q hn hd := by
    obtain h | ⟨-, -, a, ha, hl⟩ := hm.at? q
    · obtain ⟨p', hp', a, ha, hl⟩ := hb.made q hn (h.symm.trans hd)
      exact ⟨p', hp', a, ha, hm.grows.locate_directory hl⟩
    · exact ⟨p, hp, a, ha, hl⟩

/-- A destination that leads nowhere yet is not reached before its turn. -/
theorem Between.not_has (hb : Between s₀ s dests done) (hs : Separate s₀ root dests) (hp : p ∈ dests)
    (hfree : ∀ p' ∈ done, s₀.Apart p p') (hc : ¬s₀.Obscured root p)
    (h : ¬s₀.has p) : ¬s.has p := by
  intro hh
  obtain ⟨q, e, hl⟩ := has_iff.1 hh
  have hlead : s₀.LeadsTo p q := ⟨s, e, hb.grows, hl⟩
  have hat := hs.ends p hp s q e hb.grows hl
  obtain ⟨hnone, hway⟩ := hs.clear p hp h hc q hlead
  cases e with
  | file c m =>
    have := (hb.files q (fun p' hp' => hfree p' hp' q hlead) c m).1 hat
    simp [hnone] at this
  | directory =>
    obtain ⟨p', hp', a, ha, hl⟩ := hb.made q hnone hat
    exact hway p' hp' a ha ⟨s, _, hb.grows, hl⟩
  | link target =>
    have := hb.grows.2.fresh q target hat
    simp [hnone] at this

/-- What stands at a destination stands there until its turn. -/
theorem Between.locate (hb : Between s₀ s dests done) (hs : Separate s₀ root dests) (hp : p ∈ dests)
    (hfree : ∀ p' ∈ done, s₀.Apart p p') (h : s₀.locate p = .ok (q, e)) :
    s.locate p = .ok (q, e) := by
  have hlead := leadsTo_of_locate h
  have hat := hs.ends p hp s₀ q e (.refl _) h
  obtain ⟨e', hbe, h'⟩ := hb.grows.locate h
  have hat' := hs.ends p hp s q e' hb.grows h'
  cases hbe with
  | same => exact h'
  | @rewritten c c' m m' =>
    have := (hb.files q (fun p' hp' => hfree p' hp' q hlead) c m).2 hat
    rw [hat'] at this
    rwa [← Option.some.inj this]

/-- What an artifact finds at a destination that is not obscured was there at the start. -/
theorem Between.entry?_eq (hb : Between s₀ s dests done) (hs : Separate s₀ root dests) (hp : p ∈ dests)
    (hfree : ∀ p' ∈ done, s₀.Apart p p') (hc : ¬s₀.Obscured root p) : s.entry? p = s₀.entry? p := by
  by_cases h : s₀.has p
  · obtain ⟨q, e, h⟩ := has_iff.1 h
    rw [entry?_of_locate h, entry?_of_locate (hb.locate hs hp hfree h)]
  · rw [entry?_of_not_has h, entry?_of_not_has (hb.not_has hs hp hfree hc h)]

/-- What an artifact may find at a destination that leads to `q`: what was found there at the start.
Where the destination is obscured, also what stands at `q`, or a directory that was made there. -/
def Finds (s₀ : Workspace) (root p : Path) (q : Place) (found : Option Entry) : Prop :=
  found = s₀.entry? p ∨
    s₀.Obscured root p ∧ (found = s₀.files.at? q ∨ found = some .directory)

theorem Between.finds (hb : Between s₀ s dests done) (hs : Separate s₀ root dests) (hp : p ∈ dests)
    (hfree : ∀ p' ∈ done, s₀.Apart p p') (hq : s₀.LeadsTo p q) : Finds s₀ root p q (s.entry? p) := by
  cases h : s.locate p with
  | error =>
    have hn : ¬s₀.has p := fun h₀ => by
      obtain ⟨q, e, h₀⟩ := has_iff.1 h₀
      simp [hb.locate hs hp hfree h₀] at h
    refine .inl ?_
    rw [entry?_of_not_has hn, Workspace.entry?, h]
  | ok r =>
    obtain ⟨q', e⟩ := r
    have hlead : s₀.LeadsTo p q' := ⟨s, e, hb.grows, h⟩
    obtain rfl := hq.unique hlead
    have hat := hs.ends p hp s q e hb.grows h
    rw [entry?_of_locate h]
    by_cases h₀ : s₀.has p
    · obtain ⟨q₀, e₀, h₀⟩ := has_iff.1 h₀
      rw [hb.locate hs hp hfree h₀] at h
      obtain ⟨rfl, rfl⟩ := Prod.mk.inj (Except.ok.inj h)
      exact .inl (entry?_of_locate h₀).symm
    · have hc : s₀.Obscured root p := Classical.byContradiction fun hc =>
        hb.not_has hs hp hfree hc h₀ (has_iff.2 ⟨q, e, h⟩)
      refine .inr ⟨hc, ?_⟩
      cases e with
      | file c m => exact .inl ((hb.files q (fun p' hp' => hfree p' hp' q hq) c m).1 hat).symm
      | directory => exact .inr rfl
      | link target => exact .inl (hb.grows.2.fresh q target hat).symm

theorem Between.weaken {done' : List Path} (hb : Between s₀ s dests done) (h : done ⊆ done') :
    Between s₀ s dests done' :=
  ⟨hb.grows, hb.files.mono h, hb.made⟩

theorem Between.widen {dests' : List Path} (hb : Between s₀ s dests done) (h : dests ⊆ dests') :
    Between s₀ s dests' done := by
  refine ⟨hb.grows, hb.files, fun q hn hd => ?_⟩
  obtain ⟨p, hp, hway⟩ := hb.made q hn hd
  exact ⟨p, h hp, hway⟩

theorem Between.put {d : Place} {n : String} {c : Content} {m : Nat} (hb : Between s₀ mid dests done)
    (hlink : ∀ target, s₀.files.at? (d ++ [n]) ≠ some (.link target)) (ho : mid.Opens p d n) :
    Between s₀ (mid.put (d ++ [n]) (.file c m)) dests (p :: done) ∧
      (mid.put (d ++ [n]) (.file c m)).locate p = .ok (d ++ [n], .file c m) ∧
      Touches s₀ mid (mid.put (d ++ [n]) (.file c m)) [p] := by
  have hne : d ++ [n] ≠ [] := by simp
  have hbe : ∀ x, mid.files.at? (d ++ [n]) = some x → Becomes x (.file c m) := by
    intro x hx
    cases x with
    | file => exact .rewritten
    | directory => exact absurd hx ho.free
    | link target =>
      exact absurd (hb.grows.2.fresh _ _ hx) (hlink target)
  have hg : mid.Grows (mid.put (d ++ [n]) (.file c m)) := ⟨rfl, grows_put hne hbe nofun⟩
  have hself : (mid.put (d ++ [n]) (.file c m)).files.at? (d ++ [n]) = some (.file c m) := at?_put_self hne
  have hl := ho.locate hg.2 hself
  have hlead : s₀.LeadsTo p (d ++ [n]) := ⟨_, _, hb.grows.trans hg, hl⟩
  refine ⟨⟨hb.grows.trans hg, fun q hq c' m' => ?_, fun q hn hd => ?_⟩, hl, hg, fun q e he hq => ?_⟩
  · have hqne : q ≠ d ++ [n] := fun e => hq p List.mem_cons_self (e ▸ hlead)
    have e : (mid.put (d ++ [n]) (.file c m)).files.at? q = mid.files.at? q := at?_put_of_ne hne hqne
    rw [e]
    exact hb.files q (fun p' hp' => hq p' (List.mem_cons_of_mem _ hp')) c' m'
  · have hqne : q ≠ d ++ [n] := by
      rintro rfl
      simp [hself] at hd
    have e : (mid.put (d ++ [n]) (.file c m)).files.at? q = mid.files.at? q := at?_put_of_ne hne hqne
    obtain ⟨p', hp', a, ha, hl⟩ := hb.made q hn (e ▸ hd)
    exact ⟨p', hp', a, ha, hg.locate_directory hl⟩
  · have hqne : q ≠ d ++ [n] := by
      rintro rfl
      exact hq p List.mem_cons_self hlead
    exact (at?_put_of_ne hne hqne).trans he

/-- A destination is written in its turn. -/
theorem Between.write {d : Place} {n : String} {c : Content} {m : Nat} {notices : List Notice}
    (hb : Between s₀ s dests done) (hs : Separate s₀ root dests) (hp : p ∈ dests)
    (hm : Makes p.OnWay { s with notices } mid) (ho : mid.Opens p d n) :
    Touches s₀ s (mid.put (d ++ [n]) (.file c m)) [p] ∧
      Between s₀ (mid.put (d ++ [n]) (.file c m)) dests (p :: done) ∧
      (mid.put (d ++ [n]) (.file c m)).locate p = .ok (d ++ [n], .file c m) := by
  have hmid := hb.makes hp hm
  have hlink := fun target => hs.no_link p hp mid d n target hmid.grows ho
  obtain ⟨hput, hat, ht⟩ := hmid.put (c := c) (m := m) hlink ho
  exact ⟨(Touches.notices s₀ s notices).trans ((hm.touches []).trans ht), hput, hat⟩

/-- The mode is taken after the directories are made, which leaves the file as it was found. -/
theorem Between.modeAt_eq {c : Content} {m : Nat} {notices : List Notice} (hb : Between s₀ s dests done)
    (hs : Separate s₀ root dests) (hp : p ∈ dests) (hm : Makes p.OnWay { s with notices } mid)
    (hl : s.locate p = .ok (q, .file c m)) : mid.modeAt p = m := by
  obtain ⟨e, -, hl'⟩ := hm.grows.locate hl
  have hat := hm.kept (hs.ends p hp s q _ hb.grows hl)
  rw [hs.ends p hp mid q e (hb.makes hp hm).grows hl'] at hat
  rw [modeAt, hl', Option.some.inj hat]

/-- What an artifact that was emitted leaves: its file as the policy says, by what it found. -/
def Emitted (s₀ s : Workspace) (root : Path) (a : Artifact)
    (rendered : Except Template.RenderError String) (o : WriteOutcome) : Prop :=
  ∃ q e found, s.locate a.destination = .ok (q, e) ∧ Finds s₀ root a.destination q found ∧
    Revision a.policy rendered found e o

/-- What a path leads to stays where only others are touched. -/
theorem Touches.locate {paths : List Path} (ht : Touches s₀ s s' paths) (hs : Separate s₀ root dests)
    (hp : p ∈ dests) (hg : s₀.Grows s) (hfree : ∀ p' ∈ paths, s₀.Apart p p') (h : s.locate p = .ok (q, e)) :
    s'.locate p = .ok (q, e) := by
  obtain ⟨e', -, h'⟩ := ht.grows.locate h
  have hlead : s₀.LeadsTo p q := ⟨s, e, hg, h⟩
  have hat := ht.kept q e (hs.ends p hp s q e hg h) fun p' hp' => hfree p' hp' q hlead
  rw [hs.ends p hp s' q e' (hg.trans ht.grows) h'] at hat
  rwa [← Option.some.inj hat]

theorem Emitted.keep {a : Artifact} {rendered : Except Template.RenderError String} {o : WriteOutcome}
    {paths : List Path} (h : Emitted s₀ s root a rendered o) (hs : Separate s₀ root dests)
    (hp : a.destination ∈ dests) (hg : s₀.Grows s) (ht : Touches s₀ s s' paths)
    (hfree : ∀ p ∈ paths, s₀.Apart a.destination p) : Emitted s₀ s' root a rendered o := by
  obtain ⟨q, e, found, hl, hfound, hrev⟩ := h
  exact ⟨q, e, found, ht.locate hs hp hg hfree hl, hfound, hrev⟩

theorem Between.step {a : Artifact} {g : Template.Registry} {c : Template.Context}
    {r : Except ScaffoldError WriteOutcome} (hb : Between s₀ s dests done)
    (hs : Separate s₀ root dests) (hp : a.destination ∈ dests)
    (hfree : ∀ p' ∈ done, s₀.Apart a.destination p') (h : a.Step g c s r s') :
    Touches s₀ s s' [a.destination] ∧
    ((∃ e, r = .error e ∧ Between s₀ s' dests done) ∨
      ∃ o, r = .ok o ∧ Between s₀ s' dests (a.destination :: done) ∧
        Emitted s₀ s' root a (g.render a.template c) o) := by
  have hsub : done ⊆ a.destination :: done := List.subset_cons_self _ _
  have finds {q : Place} : s₀.LeadsTo a.destination q →
    Finds s₀ root a.destination q (s.entry? a.destination) := hb.finds hs hp hfree
  cases h with
  | skipped hpol hh =>
    obtain ⟨q, e, hl⟩ := has_iff.1 hh
    have hfound := finds ⟨s, e, hb.grows, hl⟩
    rw [entry?_of_locate hl] at hfound
    exact ⟨.still _ _ _, .inr ⟨_, rfl, hb.weaken hsub, q, e, _, hl, hfound, .skipped hpol⟩⟩
  | failed hm => exact ⟨(Touches.notices s₀ s _).trans (hm.touches _), .inl ⟨_, rfl, hb.makes hp hm⟩⟩
  | unchanged hr hpol hl hrev =>
    have hfound := finds ⟨s, _, hb.grows, hl⟩
    rw [entry?_of_locate hl] at hfound
    exact ⟨(Touches.notices s₀ s _).trans (.still _ _ _), .inr ⟨_, rfl,
      ⟨hb.grows, (hb.weaken hsub).files, hb.made⟩, _, _, _, hl, hfound, .unchanged hr hpol hrev⟩⟩
  | @updated rendering held text q d n mode notices mid hr hpol hl hrev hne hm ho =>
    obtain ⟨ht, hput, hat⟩ := hb.write (c := .text text) (m := mid.modeAt a.destination) hs hp hm ho
    have hfound := finds ⟨_, _, hput.grows, hat⟩
    rw [entry?_of_locate hl] at hfound
    have hrevision : Revision a.policy (g.render a.template c) (some (.file (.text held) mode))
        (.file (.text text) (mid.modeAt a.destination)) .updated := by
      rw [hb.modeAt_eq hs hp hm hl]
      exact .updated hr hpol hrev hne
    exact ⟨ht, .inr ⟨_, rfl, hput, _, _, _, hat, hfound, hrevision⟩⟩
  | @created rendering d n notices mid hr hn hm ho =>
    obtain ⟨ht, hput, hat⟩ := hb.write (c := .text rendering) (m := mid.modeAt a.destination) hs hp hm ho
    have hfound := finds ⟨_, _, hput.grows, hat⟩
    rw [entry?_of_not_has hn] at hfound
    exact ⟨ht, .inr ⟨_, rfl, hput, _, _, _, hat, hfound, .created hr⟩⟩

end OperatorScaffold

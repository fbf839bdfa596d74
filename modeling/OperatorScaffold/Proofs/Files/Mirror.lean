import OperatorScaffold.Proofs.Files.Action
import OperatorScaffold.Proofs.Files.Leading
/-!
Workspaces that are the same but for what some files hold. What is done in one of them is done in the
other, as long as the path does not lead to one of these files.
-/

namespace OperatorScaffold

variable {P : Place → Prop}

namespace FileTree

variable {t t' : FileTree} {here cwd q : Place} {ns : List String} {p : Path} {e : Entry} {links : Nat}
  {jump jump' : Place → List String → Except FileError (Place × Entry)}

/-- Trees that are the same but for what the files at some places hold. -/
def SameBut (P : Place → Prop) (t t' : FileTree) : Prop :=
  ∀ q, t'.at? q = t.at? q ∨
    P q ∧ ∃ c m c' m', t.at? q = some (.file c m) ∧ t'.at? q = some (.file c' m')

/-- Walks that end in the same way, but for what the file holds where they end. -/
def SameEnd (P : Place → Prop) (r r' : Except FileError (Place × Entry)) : Prop :=
  r' = r ∨ ∃ q c m c' m', P q ∧ r = .ok (q, .file c m) ∧ r' = .ok (q, .file c' m')

theorem SameBut.follow (h : t.SameBut P t') (hj : ∀ here ns, SameEnd P (jump here ns) (jump' here ns)) :
    SameEnd P (follow t jump here .directory ns) (follow t' jump' here .directory ns) := by
  induction ns generalizing here with
  | nil => exact .inl rfl
  | cons n ns ih =>
    by_cases hd : n = "."
    · rw [hd, follow_here, follow_here]
      exact ih
    · by_cases hu : n = ".."
      · rw [hu, follow_up, follow_up]
        exact ih
      · by_cases hs : 255 < n.utf8ByteSize
        · refine .inl ?_
          rw [FileTree.follow, FileTree.follow, if_neg hd, if_neg hu, if_pos hs, if_neg hd, if_neg hu, if_pos hs]
        · have hn : IsName n := ⟨hd, hu, Nat.not_lt.1 hs⟩
          rw [follow_name hn, follow_name hn]
          obtain he | ⟨hp, c, m, c', m', hf, hf'⟩ := h (here ++ [n])
          · rw [he]
            cases t.at? (here ++ [n]) with
            | none => exact .inl rfl
            | some e =>
              cases e with
              | directory => exact ih
              | link target => exact hj _ _
              | file c m => cases ns <;> exact .inl rfl
          · rw [hf, hf']
            cases ns with
            | nil => exact .inr ⟨_, c, m, c', m', hp, rfl, rfl⟩
            | cons => exact .inl rfl

theorem SameBut.walk (h : t.SameBut P t') : SameEnd P (walk t links here ns) (walk t' links here ns) := by
  induction links generalizing here ns with
  | zero => exact h.follow fun _ _ => .inl rfl
  | succ links ih => exact h.follow fun _ _ => ih

theorem SameBut.locate (h : t.SameBut P t') : SameEnd P (t.locate cwd p) (t'.locate cwd p) := by
  unfold FileTree.locate
  split
  next => exact .inl rfl
  next => exact h.walk

theorem SameBut.slot (h : t.SameBut P t') : t'.slot cwd p = t.slot cwd p := by
  unfold FileTree.slot
  split
  next => rfl
  next =>
    dsimp only
    have hend : SameEnd P (FileTree.walk t linkLimit (origin cwd p) p.names.dropLast)
        (FileTree.walk t' linkLimit (origin cwd p) p.names.dropLast) := h.walk
    obtain he | ⟨q, c, m, c', m', -, he, he'⟩ := hend
    · rw [he]
    · rw [he, he']
      rfl

theorem SameBut.put (h : t.SameBut P t') (hq : q ≠ []) : (t.put q e).SameBut P (t'.put q e) := by
  intro r
  rw [at?_put hq, at?_put hq]
  split
  · exact .inl rfl
  · exact h r

theorem SameBut.directory_iff (h : t.SameBut P t') : t'.at? q = some .directory ↔ t.at? q = some .directory := by
  obtain he | ⟨-, _, _, _, _, he, he'⟩ := h q
  · rw [he]
  · simp [he, he']

theorem SameBut.isSome_at? (h : t.SameBut P t') : (t'.at? q).isSome = (t.at? q).isSome := by
  obtain he | ⟨-, _, _, _, _, he, he'⟩ := h q
  · rw [he]
  · rw [he, he']
    rfl

end FileTree

namespace Workspace

variable {s s₀ t : Workspace} {p : Path} {q : Place}

structure SameBut (P : Place → Prop) (s t : Workspace) : Prop where
  directory : t.directory = s.directory
  files : s.files.SameBut P t.files

/-- The path leads to none of these places, however the workspace grows. -/
def Avoids (P : Place → Prop) (s : Workspace) (p : Path) : Prop := ∀ q, P q → ¬s.LeadsTo p q

theorem avoids_nowhere (s : Workspace) (p : Path) : Avoids (fun _ => False) s p := fun _ h => h.elim

namespace SameBut

theorem locate_sameEnd (h : s.SameBut P t) : FileTree.SameEnd P (s.locate p) (t.locate p) := by
  unfold Workspace.locate
  rw [h.directory]
  exact h.files.locate

theorem has_eq (h : s.SameBut P t) : t.has p = s.has p := by
  unfold Workspace.has
  obtain he | ⟨_, _, _, _, _, -, he, he'⟩ := h.locate_sameEnd (p := p)
  · rw [he]
  · rw [he, he']
    rfl

theorem isDirectory_eq (h : s.SameBut P t) : t.isDirectory p = s.isDirectory p := by
  unfold Workspace.isDirectory
  obtain he | ⟨_, _, _, _, _, -, he, he'⟩ := h.locate_sameEnd (p := p)
  · rw [he]
  · rw [he, he']

theorem canonical_eq (h : s.SameBut P t) : t.canonical p = s.canonical p := by
  unfold Workspace.canonical
  obtain he | ⟨_, _, _, _, _, -, he, he'⟩ := h.locate_sameEnd (p := p)
  · rw [he]
  · rw [he, he']
    rfl

theorem locate_eq (h : s.SameBut P t) (hg : s₀.Grows s) (ha : Avoids P s₀ p) : t.locate p = s.locate p := by
  obtain he | ⟨q, _, _, _, _, hp, he, -⟩ := h.locate_sameEnd (p := p)
  · exact he
  · exact absurd ⟨s, _, hg, he⟩ (ha q hp)

theorem put (h : s.SameBut P t) {e : Entry} (hq : q ≠ []) : (s.put q e).SameBut P (t.put q e) :=
  ⟨h.directory, h.files.put hq⟩

theorem notices (h : s.SameBut P t) (ns ns' : List Notice) :
    SameBut P { s with notices := ns } { t with notices := ns' } :=
  ⟨h.directory, h.files⟩

theorem makeDirectory (h : s.SameBut P t) :
    (∃ e, s.makeDirectory p = .error e ∧ t.makeDirectory p = .error e) ∨
      ∃ s' t', s.makeDirectory p = .ok s' ∧ t.makeDirectory p = .ok t' ∧ s'.SameBut P t' := by
  unfold Workspace.makeDirectory
  rw [h.directory, h.files.slot]
  cases s.files.slot s.directory p with
  | error e => exact .inl ⟨e, rfl, rfl⟩
  | ok slot =>
    cases slot with
    | nameless => exact .inl ⟨_, rfl, rfl⟩
    | named d n slash =>
      dsimp only [bind, Except.bind]
      simp only [h.files.isSome_at?]
      by_cases hat : (s.files.at? (d ++ [n])).isSome = true
      · simp only [if_pos hat]
        exact .inl ⟨_, rfl, rfl⟩
      · simp only [if_neg hat]
        exact .inr ⟨_, _, rfl, rfl, h.put (by simp)⟩

theorem install (h : s.SameBut P t) {e : Entry} : (∃ f, s.install p e = .error f ∧ t.install p e = .error f) ∨
    ∃ s' t', s.install p e = .ok s' ∧ t.install p e = .ok t' ∧ s'.SameBut P t' := by
  unfold Workspace.install
  rw [h.directory, h.files.slot]
  cases s.files.slot s.directory p with
  | error e => exact .inl ⟨e, rfl, rfl⟩
  | ok slot =>
    cases slot with
    | nameless => exact .inl ⟨_, rfl, rfl⟩
    | named d n slash =>
      dsimp only [bind, Except.bind]
      simp only [h.files.directory_iff]
      by_cases hslash : slash = true
      · simp only [if_pos hslash]
        exact .inl ⟨_, rfl, rfl⟩
      · simp only [if_neg hslash]
        by_cases hat : s.files.at? (d ++ [n]) = some .directory
        · simp only [if_pos hat]
          exact .inl ⟨_, rfl, rfl⟩
        · simp only [if_neg hat]
          exact .inr ⟨_, _, rfl, rfl, h.put (by simp)⟩

theorem symm (h : s.SameBut P t) : t.SameBut P s where
  directory := h.directory.symm
  files q := by
    obtain he | ⟨hp, c, m, c', m', he, he'⟩ := h.files q
    · exact .inl he.symm
    · exact .inr ⟨hp, c', m', c, m, he', he⟩

theorem grows (h : s.SameBut P t) : s.Grows t := by
  refine ⟨h.directory, fun q e he => ?_, fun q target hl => ?_⟩
  · obtain hq | ⟨-, c, m, c', m', hf, hf'⟩ := h.files q
    · exact ⟨e, hq.trans he, .same⟩
    · obtain rfl := Option.some.inj (he.symm.trans hf)
      exact ⟨_, hf', .rewritten⟩
  · obtain hq | ⟨-, _, _, _, _, -, hf'⟩ := h.files q
    · exact hq.symm.trans hl
    · cases hf'.symm.trans hl

theorem not_obscured {root : Path} (h : s.SameBut P t) (hc : ¬s.Obscured root p) : ¬t.Obscured root p := by
  rintro ⟨hhas, q, hq, hfound⟩
  refine hc ⟨by rwa [h.has_eq] at hhas, q, hq.of_grows h.grows, ?_⟩
  refine hfound.imp (fun hne => ?_) fun ⟨a, ha, hlead⟩ => ⟨a, ha, hlead.of_grows h.grows⟩
  rwa [← Option.isSome_iff_ne_none, ← h.files.isSome_at?, Option.isSome_iff_ne_none]

/-- Workspaces that differ nowhere hold the same. -/
theorem at?_eq (h : SameBut (fun _ => False) s t) (q : Place) : t.files.at? q = s.files.at? q :=
  (h.files q).resolve_right fun hp => hp.1

end SameBut

/-- A file that holds something else makes a difference only where it is. -/
theorem sameBut_put_file {c c' : Content} {m m' : Nat} (hq : s.files.at? q = some (.file c m)) :
    s.SameBut (· = q) (s.put q (.file c' m')) := by
  have hne : q ≠ [] := by
    rintro rfl
    cases hq
  refine ⟨rfl, fun r => ?_⟩
  by_cases hr : r = q
  · subst hr
    exact .inr ⟨rfl, c, m, c', m', hq, FileTree.at?_put_self hne⟩
  · exact .inl (FileTree.at?_put_of_ne hne hr)

end Workspace

namespace Action

variable {ε δ α β : Type} {x y : Action ε α} {f g : α → Action ε β} {s s₀ t : Workspace} {p : Path}

/-- The one action ends in `s` as the other does in `t`, and leaves the workspaces the same again. -/
def Mirrors (P : Place → Prop) (x y : Action ε α) (s t : Workspace) : Prop :=
  (y t).1 = (x s).1 ∧ (x s).2.SameBut P (y t).2

namespace Mirrors

theorem of_eq {r : Except ε α} {s' t' : Workspace} (hx : x s = (r, s')) (hy : y t = (r, t'))
    (h : s'.SameBut P t') : Mirrors P x y s t := by
  rw [Mirrors, hx, hy]
  exact ⟨rfl, h⟩

theorem exists_eq {r : Except ε α} {s' : Workspace} (h : Mirrors P x y s t) (hx : x s = (r, s')) :
    ∃ t', y t = (r, t') ∧ s'.SameBut P t' := by
  rw [Mirrors, hx] at h
  exact ⟨(y t).2, Prod.ext h.1 rfl, h.2⟩

theorem bind (h : Mirrors P x y s t)
    (hf : ∀ a s' t', x s = (.ok a, s') → s'.SameBut P t' → Mirrors P (f a) (g a) s' t') :
    Mirrors P (x >>= f) (y >>= g) s t := by
  cases hx : x s with
  | mk r s' =>
    obtain ⟨t', hy, hst⟩ := h.exists_eq hx
    cases r with
    | error e => exact .of_eq (bind_apply_error hx) (bind_apply_error hy) hst
    | ok a =>
      rw [Mirrors, bind_apply_ok hx, bind_apply_ok hy]
      exact hf a s' t' hx hst

theorem relabel (h : Mirrors P x y s t) (f : ε → δ) : Mirrors P (x.relabel f) (y.relabel f) s t := by
  cases hx : x s with
  | mk r s' =>
    obtain ⟨t', hy, hst⟩ := h.exists_eq hx
    exact .of_eq (by rw [Action.relabel, hx]) (by rw [Action.relabel, hy]) hst

theorem pure (h : s.SameBut P t) (a : α) : Mirrors P (pure a : Action ε α) (Pure.pure a) s t := ⟨rfl, h⟩

theorem liftExcept (h : s.SameBut P t) {r r' : Except ε α} (hr : r' = r) :
    Mirrors P (liftExcept r) (OperatorScaffold.liftExcept r') s t :=
  ⟨hr, h⟩

theorem modify {f f' : Workspace → Workspace} (hf : (f s).SameBut P (f' t)) :
    Mirrors P (modify f : Action ε PUnit) (MonadState.modifyGet fun w => (⟨⟩, f' w)) s t := ⟨rfl, hf⟩

end Mirrors

end Action

namespace Workspace

variable {s s₀ t : Workspace} {p : Path}

theorem SameBut.makeDirectories (h : s.SameBut P t) (ps : List Path) :
    Action.Mirrors P (makeDirectories ps) (makeDirectories ps) s t := by
  induction ps generalizing s t with
  | nil => exact ⟨rfl, h⟩
  | cons p ps ih =>
    have hfound (e : FileError) {s t : Workspace} (h : s.SameBut P t) :
        (if t.isDirectory p then .ok () else .error e : Except FileError Unit) =
          if s.isDirectory p then .ok () else .error e := by
      rw [h.isDirectory_eq]
    unfold Action.Mirrors
    rw [Workspace.makeDirectories, Workspace.makeDirectories]
    obtain ⟨e, hs, ht⟩ | ⟨s', t', hs, ht, h'⟩ := h.makeDirectory (p := p)
    · rw [hs, ht]
      by_cases he : e = .noEntry
      · subst he
        cases hx : Workspace.makeDirectories ps s with
        | mk r mid =>
          obtain ⟨mid', hy, hmid⟩ := (ih h).exists_eq hx
          rw [hy]
          cases r with
          | error e => exact ⟨rfl, hmid⟩
          | ok =>
            dsimp only
            obtain ⟨e, hs, ht⟩ | ⟨s', t', hs, ht, h'⟩ := hmid.makeDirectory (p := p)
            · rw [hs, ht]
              exact ⟨hfound e hmid, hmid⟩
            · rw [hs, ht]
              exact ⟨rfl, h'⟩
      · cases e with
        | noEntry => exact absurd rfl he
        | _ => exact ⟨hfound _ h, h⟩
    · rw [hs, ht]
      exact ⟨rfl, h'⟩

theorem SameBut.modeAt_eq (h : s.SameBut P t) (hg : s₀.Grows s) (ha : Avoids P s₀ p) : t.modeAt p = s.modeAt p := by
  unfold Workspace.modeAt
  rw [h.locate_eq hg ha]

theorem SameBut.writeText (h : s.SameBut P t) (hg : s₀.Grows s) (ha : Avoids P s₀ p) (text : String) :
    Action.Mirrors P (writeText p text) (writeText p text) s t := by
  unfold Action.Mirrors Workspace.writeText
  have hm := makeDirectories_makes (directoryOf p).ancestors s
  dsimp only
  cases hx : Workspace.makeDirectories (directoryOf p).ancestors s with
  | mk r mid =>
    obtain ⟨mid', hy, hmid⟩ := (h.makeDirectories _).exists_eq hx
    rw [hx] at hm
    rw [hy]
    cases r with
    | error e => exact ⟨rfl, hmid⟩
    | ok =>
      dsimp only
      rw [hmid.modeAt_eq (hg.trans hm.grows) ha]
      obtain ⟨e, hs, ht⟩ | ⟨s', t', hs, ht, h'⟩ := hmid.install (p := p) (e := .file (.text text) (mid.modeAt p))
      · rw [hs, ht]
        exact ⟨rfl, hmid⟩
      · rw [hs, ht]
        exact ⟨rfl, h'⟩

end Workspace

end OperatorScaffold

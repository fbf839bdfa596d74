import OperatorScaffold.Proofs.Failure
import OperatorScaffold.Proofs.Files.Growth
import OperatorScaffold.Proofs.Files.Path
/-!
What the actions on a workspace do to its files: directories are made on the way to a path, and a
text ends up where the path leads.
-/

namespace OperatorScaffold

open FileTree
open scoped List

theorem FileTree.slot_eq_named {t : FileTree} {cwd d : Place} {p : Path} {n : String} {slash : Bool}
    (h : t.slot cwd p = .ok (.named d n slash)) : refused? p = none ∧
      Walks t linkLimit (origin cwd p) p.names.dropLast d .directory ∧
      p.names.getLast? = some n ∧ IsName n ∧ slash = p.endsWithSlash := by
  unfold slot at h
  split at h
  next => cases h
  next hr =>
    obtain ⟨⟨d', e⟩, hw, h⟩ := bind_eq_ok.1 h
    cases hn : p.names.getLast? with
    | none =>
      rw [hn] at h
      cases h
    | some n' =>
      simp only [hn] at h
      split at h
      next => cases h
      next he =>
        split at h
        next => cases h
        next hdots =>
          split at h
          next => cases h
          next hl =>
            cases h
            simp only [Bool.or_eq_true, decide_eq_true_eq, not_or] at hdots
            obtain rfl := Decidable.not_not.1 he
            exact ⟨hr, walks_of_walk hw, rfl, ⟨hdots.1, hdots.2, Nat.not_lt.1 hl⟩, rfl⟩

namespace Workspace

variable {s s' mid : Workspace} {p a : Path} {q : Place} {e : Entry}

theorem locate_eq_ok_iff : s.locate p = .ok (q, e) ↔
    refused? p = none ∧ Walks s.files linkLimit (origin s.directory p) p.steps q e := by
  unfold locate FileTree.locate
  split
  next h => simp [h]
  next h => simp [h, walk_eq_ok_iff]

/-- A workspace whose files grow. -/
def Grows (s s' : Workspace) : Prop := s'.directory = s.directory ∧ s.files.Grows s'.files

theorem Grows.refl (s : Workspace) : s.Grows s := ⟨rfl, .refl _⟩

theorem Grows.trans {s₁ s₂ s₃ : Workspace} (h : s₁.Grows s₂) (h' : s₂.Grows s₃) : s₁.Grows s₃ :=
  ⟨h'.1.trans h.1, h.2.trans h'.2⟩

theorem Grows.locate (hg : s.Grows s') (h : s.locate p = .ok (q, e)) :
    ∃ e', Becomes e e' ∧ s'.locate p = .ok (q, e') := by
  obtain ⟨hr, hw⟩ := locate_eq_ok_iff.1 h
  obtain ⟨e', hb, hw⟩ := hw.mono hg.2
  exact ⟨e', hb, locate_eq_ok_iff.2 ⟨hr, hg.1 ▸ hw⟩⟩

theorem has_iff : s.has p ↔ ∃ q e, s.locate p = .ok (q, e) := by
  unfold has
  cases s.locate p with
  | error => simp [Except.isOk, Except.toBool]
  | ok r => simp [Except.isOk, Except.toBool, Prod.ext_iff]

theorem steps_eq_names (h : p.endsWithSlash = false) : p.steps = p.names := by
  simp [Path.steps, h]

theorem grows_put_directory (hq : s.files.at? q = none) : s.Grows (s.put q .directory) :=
  ⟨rfl, grows_put (ne_nil_of_at?_eq_none hq) (by simp [hq]) nofun⟩

theorem makeDirectory_eq_ok (h : s.makeDirectory p = .ok s') : ∃ q, s.files.at? q = none ∧
    s' = s.put q .directory ∧ p ≠ ⟨"."⟩ ∧ s'.locate p = .ok (q, .directory) := by
  obtain ⟨slot, hs, h⟩ := bind_eq_ok.1 h
  cases slot with
  | nameless => cases h
  | named d n slash =>
    simp only at h
    split at h
    next => cases h
    next hat =>
      cases h
      have hat : s.files.at? (d ++ [n]) = none := by simpa using hat
      obtain ⟨hr, hw, hlast, hn, rfl⟩ := slot_eq_named hs
      obtain ⟨e, hb, hw⟩ := hw.mono (grows_put_directory hat).2
      obtain rfl := hb.of_directory
      have hd : (s.put (d ++ [n]) .directory).files.at? (d ++ [n]) = some .directory :=
        at?_put_self (ne_nil_of_at?_eq_none hat)
      obtain ⟨pre, hpre⟩ := List.getLast?_eq_some_iff.1 hlast
      rw [hpre, List.dropLast_concat] at hw
      have hdot : p ≠ ⟨"."⟩ := by
        rintro rfl
        cases hlast
        exact not_isName_here hn
      refine ⟨d ++ [n], hat, rfl, hdot, locate_eq_ok_iff.2 ⟨hr, ?_⟩⟩
      unfold Path.steps
      rw [hpre]
      split
      · rw [List.append_assoc]
        exact hw.append (.enter hn hd (.stay .stop))
      · exact hw.append (.enter hn hd .stop)

/-- Directories are made where nothing was, each at the end of one of some ways. -/
inductive Makes (ways : Path → Prop) (s : Workspace) : Workspace → Prop
  | still : Makes ways s s
  | made {mid : Workspace} {a : Path} {q : Place} : Makes ways s mid → ways a →
      mid.files.at? q = none → (mid.put q .directory).locate a = .ok (q, .directory) →
      Makes ways s (mid.put q .directory)

variable {ways : Path → Prop}

theorem Makes.trans (h : Makes ways s mid) (h' : Makes ways mid s') : Makes ways s s' := by
  induction h' with
  | still => exact h
  | made _ ha hq hl ih => exact .made ih ha hq hl

theorem Makes.imp {ways' : Path → Prop} (hw : ∀ a, ways a → ways' a) (h : Makes ways s s') :
    Makes ways' s s' := by
  induction h with
  | still => exact .still
  | made _ ha hq hl ih => exact .made ih (hw _ ha) hq hl

theorem Makes.grows (h : Makes ways s s') : s.Grows s' := by
  induction h with
  | still => exact .refl _
  | made _ _ hq _ ih => exact ih.trans (grows_put_directory hq)

theorem Grows.locate_directory (hg : s.Grows s') (h : s.locate p = .ok (q, .directory)) :
    s'.locate p = .ok (q, .directory) := by
  obtain ⟨e, hb, h⟩ := hg.locate h
  rwa [hb.of_directory] at h

theorem Makes.at? (h : Makes ways s s') (q : Place) : s'.files.at? q = s.files.at? q ∨
    s.files.at? q = none ∧ s'.files.at? q = some .directory ∧
      ∃ a, ways a ∧ s'.locate a = .ok (q, .directory) := by
  induction h with
  | still => exact .inl rfl
  | @made mid a r hm ha hr hl ih =>
    have hg := grows_put_directory hr
    have hne : r ≠ [] := ne_nil_of_at?_eq_none hr
    by_cases h : q = r
    · subst h
      refine .inr ⟨?_, at?_put_self hne, a, ha, hl⟩
      obtain e | ⟨e, -⟩ := ih
      · rwa [e] at hr
      · exact e
    · have e : (mid.put r .directory).files.at? q = mid.files.at? q := at?_put_of_ne hne h
      rw [e]
      exact ih.imp_right fun ⟨hs, hd, b, hb, hlb⟩ => ⟨hs, hd, b, hb, hg.locate_directory hlb⟩

theorem Makes.kept (h : Makes ways s s') (hq : s.files.at? q = some e) : s'.files.at? q = some e := by
  obtain he | ⟨hn, -⟩ := h.at? q
  · exact he.trans hq
  · simp [hq] at hn

theorem makeDirectories_makes (as : List Path) (s : Workspace) :
    Makes (fun a => a ∈ as ∧ a ≠ ⟨"."⟩) s (makeDirectories as s).2 := by
  induction as generalizing s with
  | nil => exact .still
  | cons a as ih =>
    have one {s s' : Workspace} (h : s.makeDirectory a = .ok s') :
        Makes (fun b => b ∈ a :: as ∧ b ≠ ⟨"."⟩) s s' := by
      obtain ⟨q, hq, rfl, hdot, hl⟩ := makeDirectory_eq_ok h
      exact .made .still ⟨List.mem_cons_self, hdot⟩ hq hl
    have hrest := (ih s).imp fun b hb => (⟨List.mem_cons_of_mem a hb.1, hb.2⟩ : b ∈ a :: as ∧ b ≠ ⟨"."⟩)
    rw [makeDirectories]
    split
    next h => exact one h
    next =>
      split
      next e => rwa [e] at hrest
      next mid e =>
        rw [e] at hrest
        split
        next h => exact hrest.trans (one h)
        next => exact hrest
    next => exact .still

/-- The directory and the name that a file is put at when it is written to a path. -/
structure Opens (s : Workspace) (p : Path) (d : Place) (n : String) : Prop where
  accepted : refused? p = none
  walks : Walks s.files linkLimit (origin s.directory p) p.names.dropLast d .directory
  last : p.names.getLast? = some n
  isName : IsName n
  noSlash : p.endsWithSlash = false
  free : s.files.at? (d ++ [n]) ≠ some .directory

theorem Opens.locate {d : Place} {n : String} {t : FileTree} {c : Content} {m : Nat}
    (h : s.Opens p d n) (hg : s.files.Grows t) (ht : t.at? (d ++ [n]) = some (.file c m)) :
    ({ s with files := t }).locate p = .ok (d ++ [n], .file c m) := by
  obtain ⟨e, hb, hw⟩ := h.walks.mono hg
  obtain rfl := hb.of_directory
  obtain ⟨pre, hpre⟩ := List.getLast?_eq_some_iff.1 h.last
  rw [hpre, List.dropLast_concat] at hw
  rw [locate_eq_ok_iff, steps_eq_names h.noSlash, hpre]
  exact ⟨h.accepted, hw.append (.file h.isName ht)⟩

theorem install_eq_ok (h : s.install p e = .ok s') :
    ∃ d n, s.Opens p d n ∧ s' = s.put (d ++ [n]) e := by
  obtain ⟨slot, hs, h⟩ := bind_eq_ok.1 h
  cases slot with
  | nameless => cases h
  | named d n slash =>
    simp only at h
    split at h
    next => cases h
    next hslash =>
      split at h
      next => cases h
      next hat =>
        cases h
        obtain ⟨hr, hw, hlast, hn, rfl⟩ := slot_eq_named hs
        exact ⟨d, n, ⟨hr, hw, hlast, hn, by simpa using hslash, hat⟩, rfl⟩

/-- A text is written where a path leads once the directories on its way are there; where this fails,
directories are all that is new. -/
theorem writeText_spec {text : String} {r : Except (Path × FileError) Unit}
    (h : writeText p text s = (r, s')) : ∃ mid, Makes p.OnWay s mid ∧
      ((∃ e, r = .error e ∧ s' = mid) ∨ r = .ok () ∧ ∃ d n, mid.Opens p d n ∧
        s' = mid.put (d ++ [n]) (.file (.text text) (mid.modeAt p))) := by
  have hm := (makeDirectories_makes (directoryOf p).ancestors s).imp fun _ ha =>
    Path.onWay_of_mem_ancestors ha.1 ha.2
  simp only [writeText] at h
  split at h
  next e mid hd =>
    obtain ⟨rfl, rfl⟩ := Prod.mk.inj h
    exact ⟨mid, by rwa [hd] at hm, .inl ⟨_, rfl, rfl⟩⟩
  next mid hd =>
    rw [hd] at hm
    split at h
    next =>
      obtain ⟨rfl, rfl⟩ := Prod.mk.inj h
      exact ⟨mid, hm, .inl ⟨_, rfl, rfl⟩⟩
    next s'' hi =>
      obtain ⟨rfl, rfl⟩ := Prod.mk.inj h
      exact ⟨mid, hm, .inr ⟨rfl, install_eq_ok hi⟩⟩

end Workspace

end OperatorScaffold

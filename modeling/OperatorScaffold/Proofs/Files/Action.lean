import Mathlib.Data.List.Forall2
import OperatorScaffold.Files.Workspace
/-!
Actions one after the other: with what result they end and in what workspace.
-/

namespace OperatorScaffold.Action

variable {ε δ α β γ : Type} {s s' : Workspace}

@[simp] theorem get_apply : (get : Action ε Workspace) s = (.ok s, s) := rfl

@[simp] theorem throw_apply (e : ε) : (throw e : Action ε α) s = (.error e, s) := rfl

@[simp] theorem modify_apply (f : Workspace → Workspace) :
    (modify f : Action ε PUnit) s = (.ok ⟨⟩, f s) := rfl

theorem relabel_ok {x : Action ε α} {a : α} (f : ε → δ) (h : x s = (.ok a, s')) :
    x.relabel f s = (.ok a, s') := by
  simp only [relabel, h]
  rfl

theorem relabel_error {x : Action ε α} {e : ε} (f : ε → δ) (h : x s = (.error e, s')) :
    x.relabel f s = (.error (f e), s') := by
  simp only [relabel, h]
  rfl

theorem of_relabel_ok {x : Action ε α} {f : ε → δ} {a : α} (h : x.relabel f s = (.ok a, s')) :
    x s = (.ok a, s') := by
  unfold relabel at h
  split at h
  next r mid hx =>
    cases r with
    | error e => cases h
    | ok b =>
      cases h
      exact hx

theorem of_relabel_error {x : Action ε α} {f : ε → δ} {d : δ} (h : x.relabel f s = (.error d, s')) :
    ∃ e, x s = (.error e, s') ∧ f e = d := by
  unfold relabel at h
  cases hx : x s with
  | mk r mid =>
    rw [hx] at h
    cases r with
    | ok a => cases h
    | error e =>
      cases h
      exact ⟨e, rfl, rfl⟩

theorem relabel_congr_at {x y : Action ε α} (h : x s = y s) (f : ε → δ) : x.relabel f s = y.relabel f s := by
  rw [relabel, relabel, h]

theorem discard_ok {x : Action ε α} {a : α} (h : x s = (.ok a, s')) :
    (discard x : Action ε PUnit) s = (.ok ⟨⟩, s') := by
  change ExceptT.map _ x s = _
  simp only [ExceptT.map, ExceptT.mk, StateT.bind, bind, h]
  rfl

theorem discard_error {x : Action ε α} {e : ε} (h : x s = (.error e, s')) :
    (discard x : Action ε PUnit) s = (.error e, s') := by
  change ExceptT.map _ x s = _
  simp only [ExceptT.map, ExceptT.mk, StateT.bind, bind, h]
  rfl

theorem bind_apply_ok {x : Action ε α} {f : α → Action ε β} {a : α} (h : x s = (.ok a, s')) :
    (x >>= f) s = f a s' := by
  simp only [bind, ExceptT.bind, ExceptT.mk, StateT.bind, ExceptT.bindCont, h]

theorem bind_apply_error {x : Action ε α} {f : α → Action ε β} {e : ε} (h : x s = (.error e, s')) :
    (x >>= f) s = (.error e, s') := by
  simp only [bind, ExceptT.bind, ExceptT.mk, StateT.bind, ExceptT.bindCont, h]
  rfl

theorem bind_apply {x : Action ε α} {f : α → Action ε β} {r : Except ε β}
    (h : (x >>= f) s = (r, s')) : (∃ e, x s = (.error e, s') ∧ r = .error e) ∨
      ∃ a mid, x s = (.ok a, mid) ∧ f a mid = (r, s') := by
  cases hx : x s with
  | mk y mid =>
    cases y with
    | error e =>
      rw [bind_apply_error hx] at h
      obtain ⟨rfl, rfl⟩ := Prod.mk.inj h
      exact .inl ⟨e, rfl, rfl⟩
    | ok a =>
      rw [bind_apply_ok hx] at h
      exact .inr ⟨a, mid, rfl, h⟩

theorem bind_congr_at {x y : Action ε α} (h : x s = y s) (f : α → Action ε β) :
    (x >>= f) s = (y >>= f) s := by
  cases hy : y s with
  | mk r mid =>
    rw [hy] at h
    cases r with
    | error e => rw [bind_apply_error h, bind_apply_error hy]
    | ok a => rw [bind_apply_ok h, bind_apply_ok hy]

theorem liftExcept_bind_ok {x : Except ε α} {f : α → Action ε β} {a : α} (h : x = .ok a) :
    (liftExcept x >>= f) s = f a s := by
  subst h
  rfl

theorem liftExcept_bind_apply {x : Except ε α} {f : α → Action ε β} {r : Except ε β}
    (h : (liftExcept x >>= f) s = (r, s')) : (∃ e, x = .error e ∧ r = .error e ∧ s' = s) ∨
      ∃ a, x = .ok a ∧ f a s = (r, s') := by
  obtain ⟨e, hx, rfl⟩ | ⟨a, mid, hx, h⟩ := bind_apply h
  · exact .inl ⟨e, (Prod.mk.inj hx).1, rfl, (Prod.mk.inj hx).2.symm⟩
  · obtain ⟨rfl, rfl⟩ := Prod.mk.inj hx
    exact .inr ⟨a, rfl, h⟩

theorem liftExcept_bind (x : Except ε α) (f : α → Except ε β) (k : β → Action ε γ) :
    liftExcept (x >>= f) >>= k = liftExcept x >>= fun a => liftExcept (f a) >>= k := by
  cases x <;> rfl

theorem mapM_cons_ok {f : α → Action ε β} {a : α} {as : List α} {b : β} {bs : List β} {mid : Workspace}
    (h : f a s = (.ok b, mid)) (hs : as.mapM f mid = (.ok bs, s')) :
    (a :: as).mapM f s = (.ok (b :: bs), s') := by
  rw [List.mapM_cons, bind_apply_ok h, bind_apply_ok hs]
  rfl

theorem mapM_cons_apply {f : α → Action ε β} {a : α} {as : List α} {r : Except ε (List β)}
    (h : (a :: as).mapM f s = (r, s')) : (∃ e, f a s = (.error e, s') ∧ r = .error e) ∨
      ∃ b mid r', f a s = (.ok b, mid) ∧ as.mapM f mid = (r', s') ∧ r = r'.map (b :: ·) := by
  rw [List.mapM_cons] at h
  obtain ⟨e, ha, rfl⟩ | ⟨b, mid, ha, h⟩ := bind_apply h
  · exact .inl ⟨e, ha, rfl⟩
  · obtain ⟨e, hs, rfl⟩ | ⟨bs, last, hs, h⟩ := bind_apply h
    · exact .inr ⟨b, mid, _, ha, hs, rfl⟩
    · obtain ⟨rfl, rfl⟩ := Prod.mk.inj h
      exact .inr ⟨b, mid, _, ha, hs, rfl⟩

/-- Calls one after the other fail with the first that does. -/
theorem mapM_eq_error {f : α → Action ε β} {as : List α} {e : ε} (h : as.mapM f s = (.error e, s')) :
    ∃ before a after bs mid, as = before ++ a :: after ∧ before.mapM f s = (.ok bs, mid) ∧
      f a mid = (.error e, s') := by
  induction as generalizing s with
  | nil => cases h
  | cons a as ih =>
    obtain ⟨e', ha, he⟩ | ⟨b, mid, r, ha, has, he⟩ := mapM_cons_apply h
    · cases he
      exact ⟨[], a, as, [], s, rfl, rfl, ha⟩
    · cases r with
      | ok bs => cases he
      | error e' =>
        cases he
        obtain ⟨before, a', after, bs, mid', rfl, hbefore, ha'⟩ := ih has
        exact ⟨a :: before, a', after, b :: bs, mid', rfl, mapM_cons_ok ha hbefore, ha'⟩

/-- What each call gives by itself, they give one after the other. -/
theorem forall₂_of_mapM {f : α → Action ε β} {P : α → β → Prop} {as : List α} {bs : List β}
    (hP : ∀ a b s s', f a s = (.ok b, s') → P a b) (h : as.mapM f s = (.ok bs, s')) :
    as.Forall₂ P bs := by
  induction as generalizing s bs with
  | nil =>
    cases h
    exact .nil
  | cons a as ih =>
    obtain ⟨e, -, he⟩ | ⟨b, mid, r, ha, has, he⟩ := mapM_cons_apply h
    · cases he
    cases r with
    | error e => cases he
    | ok bs =>
      cases he
      exact .cons (hP a b s mid ha) (ih has)

end OperatorScaffold.Action

import Mathlib.Data.List.Nodup
import OperatorScaffold.Graph.Validation
import OperatorScaffold.Proofs.Failure
/-!
The checks that go through a list and remember what they have met: what it means that they find
nothing, and what they find.
-/

namespace OperatorScaffold.Validation

open scoped List

theorem pair_sublist_map {α β : Type} {f : α → β} {l : List α} {a b : β} (h : [a, b] <+ l.map f) :
    ∃ x y, [x, y] <+ l ∧ f x = a ∧ f y = b := by
  obtain ⟨xs, hxs, e⟩ := List.sublist_map_iff.1 h
  match xs, e with
  | [x, y], rfl => exact ⟨x, y, hxs, rfl, rfl⟩

theorem not_nodup_map_of_pair {α β : Type} {f : α → β} {l : List α} {a b : α} (h : [a, b] <+ l)
    (e : f a = f b) : ¬(l.map f).Nodup := by
  intro hn
  have hab : [f a, f b].Nodup := (h.map f).nodup hn
  exact (List.nodup_cons.1 hab).1 (List.mem_singleton.2 e)

section Clash

variable {κ ω : Type} [BEq κ] [LawfulBEq κ]

theorem clash?_eq_none {seen cs : List (κ × ω)} (h : clash? seen cs = none) :
    (cs.map (·.1)).Nodup ∧ ∀ c ∈ cs, ∀ s ∈ seen, s.1 ≠ c.1 := by
  induction cs generalizing seen with
  | nil => simp
  | cons c cs ih =>
    rw [clash?] at h
    split at h
    next => cases h
    next hc =>
      have ⟨hn, hs⟩ := ih h
      have hc : ∀ s ∈ seen, s.1 ≠ c.1 := by simpa using hc
      refine ⟨List.nodup_cons.2 ⟨fun hm => ?_, hn⟩, List.forall_mem_cons.2 ⟨hc, fun d hd s hs' => ?_⟩⟩
      · obtain ⟨d, hd, e⟩ := List.mem_map.1 hm
        exact hs d hd c List.mem_cons_self e.symm
      · exact hs d hd s (List.mem_cons_of_mem _ hs')

theorem clash?_eq_some {seen cs : List (κ × ω)} {first second : κ × ω}
    (h : clash? seen cs = some (first, second)) :
    [first, second] <+ seen.reverse ++ cs ∧ first.1 = second.1 := by
  induction cs generalizing seen with
  | nil => cases h
  | cons c cs ih =>
    rw [clash?] at h
    split at h
    next s hs =>
      obtain ⟨rfl, rfl⟩ := Prod.mk.inj (Option.some.inj h)
      have hm : [s] <+ seen.reverse :=
        List.singleton_sublist.2 (List.mem_reverse.2 (List.mem_of_find?_eq_some hs))
      have hc : [c] <+ c :: cs := List.singleton_sublist.2 List.mem_cons_self
      exact ⟨hm.append hc, by simpa using List.find?_some hs⟩
    next => simpa using ih h

/-- The second of two entries that clash is the first one whose key was met before. -/
theorem clash?_front {seen cs : List (κ × ω)} {first second : κ × ω} (hseen : (seen.map (·.1)).Nodup)
    (h : clash? seen cs = some (first, second)) : ∃ front back, cs = front ++ second :: back ∧
      first ∈ seen ++ front ∧ first.1 = second.1 ∧ ((seen ++ front).map (·.1)).Nodup := by
  induction cs generalizing seen with
  | nil => cases h
  | cons c cs ih =>
    rw [clash?] at h
    split at h
    next s hs =>
      obtain ⟨rfl, rfl⟩ := Prod.mk.inj (Option.some.inj h)
      refine ⟨[], cs, rfl, ?_, by simpa using List.find?_some hs, ?_⟩
      · rw [List.append_nil]
        exact List.mem_of_find?_eq_some hs
      · rwa [List.append_nil]
    next hs =>
      have hc : ∀ s ∈ seen, s.1 ≠ c.1 := by simpa using hs
      have hseen : ((c :: seen).map (·.1)).Nodup :=
        List.nodup_cons.2 ⟨fun hm => by obtain ⟨s, hs, he⟩ := List.mem_map.1 hm; exact hc s hs he, hseen⟩
      obtain ⟨front, back, rfl, hfirst, hk, hn⟩ := ih hseen h
      have hperm : seen ++ c :: front ~ c :: seen ++ front := List.perm_middle
      exact ⟨c :: front, back, rfl, hperm.mem_iff.2 hfirst, hk, (hperm.map _).nodup_iff.2 hn⟩

variable {α : Type} {key : α → κ} {word : α → ω} {l : List α}

theorem clash?_map_eq_none (h : clash? [] (l.map fun a => (key a, word a)) = none) :
    (l.map key).Nodup := by
  have := (clash?_eq_none h).1
  rwa [List.map_map] at this

theorem clash?_map_eq_some {first second : κ × ω}
    (h : clash? [] (l.map fun a => (key a, word a)) = some (first, second)) :
    ∃ a b, [a, b] <+ l ∧ key a = key b ∧ first = (key a, word a) ∧ second = (key b, word b) := by
  obtain ⟨hs, hk⟩ := clash?_eq_some h
  obtain ⟨a, b, hab, rfl, rfl⟩ := pair_sublist_map hs
  exact ⟨a, b, hab, hk, rfl, rfl⟩

theorem clash?_map_front {first second : κ × ω}
    (h : clash? [] (l.map fun a => (key a, word a)) = some (first, second)) :
    ∃ front a b back, l = front ++ b :: back ∧ a ∈ front ∧ key a = key b ∧
      first = (key a, word a) ∧ second = (key b, word b) ∧ (front.map key).Nodup := by
  have hnil : (([] : List (κ × ω)).map (·.1)).Nodup := List.nodup_nil
  obtain ⟨front, back, hcut, hfirst, hk, hn⟩ := clash?_front hnil h
  obtain ⟨as, bs, rfl, rfl, hbs⟩ := List.map_eq_append_iff.1 hcut
  obtain ⟨b, back, rfl, rfl, rfl⟩ := List.map_eq_cons_iff.1 hbs
  obtain ⟨a, ha, rfl⟩ := List.mem_map.1 hfirst
  rw [List.nil_append, List.map_map] at hn
  exact ⟨as, a, b, back, rfl, ha, hk, rfl, rfl, hn⟩

end Clash

theorem pair_sublist_append {α : Type} {xs ys : List α} {a b : α} (h : [a, b] <+ xs ++ ys) :
    [a, b] <+ xs ∨ (a ∈ xs ∧ b ∈ ys) ∨ [a, b] <+ ys := by
  obtain ⟨us, vs, e, hus, hvs⟩ := List.sublist_append_iff.1 h
  cases us with
  | nil =>
    obtain rfl : vs = [a, b] := e.symm
    exact .inr (.inr hvs)
  | cons c us =>
    obtain ⟨rfl, hb⟩ := List.cons.inj e
    obtain ⟨rfl, rfl⟩ | ⟨rfl, rfl⟩ := List.append_eq_singleton_iff.1 hb.symm
    · exact .inr (.inl ⟨List.singleton_sublist.1 hus, List.singleton_sublist.1 hvs⟩)
    · exact .inl hus

/-- Two entries in the lists that the elements of a list give come from one element or from two. -/
theorem pair_sublist_flatMap {α β : Type} {f : α → List β} {l : List α} {a b : β}
    (h : [a, b] <+ l.flatMap f) :
    (∃ x ∈ l, [a, b] <+ f x) ∨ ∃ x y, [x, y] <+ l ∧ a ∈ f x ∧ b ∈ f y := by
  induction l with
  | nil => simp at h
  | cons x l ih =>
    rw [List.flatMap_cons] at h
    obtain h | ⟨ha, hb⟩ | h := pair_sublist_append h
    · exact .inl ⟨x, List.mem_cons_self, h⟩
    · obtain ⟨y, hy, hb⟩ := List.mem_flatMap.1 hb
      exact .inr ⟨x, y, List.cons_sublist_cons.2 (List.singleton_sublist.2 hy), ha, hb⟩
    · obtain ⟨y, hy, h⟩ | ⟨y, z, hyz, h⟩ := ih h
      · exact .inl ⟨y, List.mem_cons_of_mem _ hy, h⟩
      · exact .inr ⟨y, z, hyz.cons x, h⟩

theorem forM_eq_ok {α ε : Type} {f : α → Except ε Unit} {l : List α} (h : l.forM f = .ok ()) :
    ∀ a ∈ l, f a = .ok () := by
  induction l with
  | nil => simp
  | cons a l ih =>
    obtain ⟨_, ha, h⟩ := bind_eq_ok.1 h
    exact List.forall_mem_cons.2 ⟨ha, ih h⟩

theorem forM_eq_error {α ε : Type} {f : α → Except ε Unit} {l : List α} {e : ε}
    (h : l.forM f = .error e) : ∃ a ∈ l, f a = .error e := by
  induction l with
  | nil => cases h
  | cons a l ih =>
    obtain h | ⟨_, _, h⟩ := bind_eq_error.1 h
    · exact ⟨a, List.mem_cons_self, h⟩
    · obtain ⟨b, hb, h⟩ := ih h
      exact ⟨b, List.mem_cons_of_mem _ hb, h⟩

/-- Uses of one predicate have one target. -/
def Agree (us : List PredicateUse) : Prop :=
  ∀ u ∈ us, ∀ v ∈ us, u.predicate = v.predicate → u.target = v.target

theorem agree_cons {u : PredicateUse} {us : List PredicateUse} :
    Agree (u :: us) ↔ (∀ v ∈ us, v.predicate = u.predicate → v.target = u.target) ∧ Agree us := by
  constructor
  · intro h
    exact ⟨fun v hv => h v (List.mem_cons_of_mem u hv) u List.mem_cons_self,
      fun v hv v' hv' => h v (List.mem_cons_of_mem u hv) v' (List.mem_cons_of_mem u hv')⟩
  · rintro ⟨hu, h⟩ v hm v' hm' e
    obtain rfl | hv := List.mem_cons.1 hm
    · obtain rfl | hv' := List.mem_cons.1 hm'
      · rfl
      · exact (hu v' hv' e.symm).symm
    · obtain rfl | hv' := List.mem_cons.1 hm'
      · exact hu v hv e
      · exact h v hv v' hv' e

theorem Agree.perm {us vs : List PredicateUse} (h : Agree us) (hp : us ~ vs) : Agree vs :=
  fun u hu v hv => h u (hp.mem_iff.2 hu) v (hp.mem_iff.2 hv)

theorem checkPredicates_eq_ok {seen us : List PredicateUse} (h : checkPredicates seen us = .ok ())
    (hs : Agree seen) : Agree (seen ++ us) := by
  induction us generalizing seen with
  | nil => rwa [List.append_nil]
  | cons w us ih =>
    rw [checkPredicates] at h
    split at h
    next hw =>
      have hw : ∀ s ∈ seen, s.predicate ≠ w.predicate := by simpa using hw
      have hs' : Agree (w :: seen) := agree_cons.2 ⟨fun s hs e => absurd e (hw s hs), hs⟩
      exact (ih h hs').perm List.perm_middle.symm
    next first hf =>
      split at h
      next ht =>
        -- This use is not kept among the seen ones: the first of its name stands for it.
        have hall : Agree (seen ++ us) := ih h hs
        have hm : first ∈ seen ++ us := List.mem_append_left _ (List.mem_of_find?_eq_some hf)
        have hp : first.predicate = w.predicate := by simpa using List.find?_some hf
        have hw : ∀ u ∈ seen ++ us, u.predicate = w.predicate → u.target = w.target :=
          fun u hu e => (hall u hu first hm (e.trans hp.symm)).trans ht
        exact (agree_cons.2 ⟨hw, hall⟩).perm List.perm_middle.symm
      next => cases h

theorem checkPredicates_eq_error {seen us : List PredicateUse} {e : ValidationError}
    (h : checkPredicates seen us = .error e) : ∃ u v, [u, v] <+ seen.reverse ++ us ∧
      u.predicate = v.predicate ∧ u.target ≠ v.target ∧
      e = .duplicateReadiness v.predicate u.origin v.origin := by
  induction us generalizing seen with
  | nil => cases h
  | cons w us ih =>
    rw [checkPredicates] at h
    split at h
    next => simpa using ih h
    next first hf =>
      split at h
      next =>
        obtain ⟨u, v, huv, h⟩ := ih h
        exact ⟨u, v, huv.trans (.append_left (List.sublist_cons_self w us) _), h⟩
      next ht =>
        have hm : [first] <+ seen.reverse :=
          List.singleton_sublist.2 (List.mem_reverse.2 (List.mem_of_find?_eq_some hf))
        have hw : [w] <+ w :: us := List.singleton_sublist.2 List.mem_cons_self
        exact ⟨first, w, hm.append hw, by simpa using List.find?_some hf, ht, (Except.error.inj h).symm⟩

end OperatorScaffold.Validation

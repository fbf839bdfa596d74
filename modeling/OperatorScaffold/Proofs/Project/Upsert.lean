import Mathlib.Data.Prod.Lex
import Mathlib.Data.String.Basic
import OperatorScaffold.Project.File
/-!
Entries of a project are kept sorted by their keys, and an entry that was put in stays what it is when
it is put in again.
-/

namespace OperatorScaffold

open scoped List

def GVK.rank (a : GVK) : String ×ₗ String ×ₗ String := toLex (a.group, toLex (a.version, a.kind))

theorem GVK.le_iff {a b : GVK} : a.le b ↔ a.rank ≤ b.rank := by
  obtain ⟨g, v, k⟩ := a
  obtain ⟨g', v', k'⟩ := b
  have hk : (k < k' ∨ k = k') ↔ k ≤ k' := le_iff_lt_or_eq.symm
  simp only [le, rank, Prod.Lex.toLex_le_toLex, Bool.or_eq_true, Bool.and_eq_true, decide_eq_true_eq, hk]

namespace ProjectFile

variable {p : ProjectFile} {r e : ProjectResource} {rs es : List ProjectResource} {key : GVK}

def Sorted (rs : List ProjectResource) : Prop := rs.Pairwise fun a b => a.gvk.rank ≤ b.gvk.rank

theorem mem_insertResource {x : ProjectResource} (h : x ∈ insertResource r rs) : x = r ∨ x ∈ rs := by
  induction rs with
  | nil => exact .inl (List.mem_singleton.1 h)
  | cons s rs ih =>
    rw [insertResource] at h
    split at h
    · exact List.mem_cons.1 h
    · obtain rfl | h := List.mem_cons.1 h
      · exact .inr List.mem_cons_self
      · exact (ih h).imp_right (List.mem_cons_of_mem s)

theorem sorted_insertResource (h : Sorted rs) : Sorted (insertResource r rs) := by
  induction rs with
  | nil => exact List.pairwise_singleton _ _
  | cons s rs ih =>
    obtain ⟨hs, hrs⟩ := List.pairwise_cons.1 h
    rw [insertResource]
    split
    next hle =>
      have hle := GVK.le_iff.1 hle
      refine List.pairwise_cons.2 ⟨?_, h⟩
      intro x hx
      obtain rfl | hx := List.mem_cons.1 hx
      · exact hle
      · exact le_trans hle (hs x hx)
    next hle =>
      have hlt := le_of_lt (not_le.1 (GVK.le_iff.not.1 hle))
      refine List.pairwise_cons.2 ⟨?_, ih hrs⟩
      intro x hx
      obtain rfl | hx := mem_insertResource hx
      · exact hlt
      · exact hs x hx

theorem sorted_sortResources (rs : List ProjectResource) : Sorted (sortResources rs) := by
  induction rs with
  | nil => exact .nil
  | cons r rs ih => exact sorted_insertResource ih

theorem sortResources_of_sorted (h : Sorted rs) : sortResources rs = rs := by
  induction rs with
  | nil => rfl
  | cons r rs ih =>
    obtain ⟨hr, hrs⟩ := List.pairwise_cons.1 h
    change insertResource r (sortResources rs) = r :: rs
    rw [ih hrs]
    cases rs with
    | nil => rfl
    | cons s rs => rw [insertResource, if_pos (GVK.le_iff.2 (hr s List.mem_cons_self))]

def lookup? (rs : List ProjectResource) (key : GVK) : Option ProjectResource :=
  rs.find? (·.gvk = key)

theorem lookup?_cons : lookup? (r :: rs) key = if r.gvk = key then some r else lookup? rs key := by
  rw [lookup?, List.find?_cons]
  split <;> simp_all [lookup?]

theorem lookup?_insertResource : lookup? (insertResource r rs) key = lookup? (r :: rs) key := by
  induction rs with
  | nil => rfl
  | cons s rs ih =>
    rw [insertResource]
    split
    next => rfl
    next hle =>
      -- Of two entries with one key the new one would have come first.
      have hne : s.gvk ≠ r.gvk := by
        intro h
        exact hle (GVK.le_iff.2 (h ▸ le_refl _))
      simp only [lookup?_cons, ih]
      split
      next h => rw [if_neg fun hr => hne (h.trans hr.symm)]
      next => rfl

theorem lookup?_sortResources : lookup? (sortResources rs) key = lookup? rs key := by
  induction rs with
  | nil => rfl
  | cons r rs ih =>
    change lookup? (insertResource r (sortResources rs)) key = _
    rw [lookup?_insertResource, lookup?_cons, lookup?_cons, ih]

/-- A controller is recorded for the key. -/
def controls (rs : List ProjectResource) (key : GVK) : Bool := (lookup? rs key).any (·.controller)

theorem lookup?_refresh_self :
    lookup? (refresh e rs) e.gvk = some { e with controller := controls rs e.gvk || e.controller } := by
  induction rs with
  | nil => simp [refresh, controls, lookup?]
  | cons s rs ih =>
    rw [refresh, controls, lookup?_cons]
    split
    next h => exact lookup?_cons.trans (if_pos rfl)
    next h =>
      rw [lookup?_cons, if_neg h]
      exact ih

theorem lookup?_refresh_of_ne (h : key ≠ e.gvk) : lookup? (refresh e rs) key = lookup? rs key := by
  induction rs with
  | nil => simp [refresh, lookup?_cons, h.symm]
  | cons s rs ih =>
    rw [refresh, lookup?_cons]
    split
    next hs =>
      rw [if_neg (hs ▸ h.symm)]
      exact lookup?_cons.trans (if_neg h.symm)
    next => rw [lookup?_cons, ih]

/-- The entry is there, but for a controller that was recorded before. -/
def Recorded (e : ProjectResource) (rs : List ProjectResource) : Prop :=
  ∃ c, lookup? rs e.gvk = some { e with controller := c || e.controller }

theorem Recorded.refresh_eq (h : Recorded e rs) : refresh e rs = rs := by
  obtain ⟨c, h⟩ := h
  induction rs with
  | nil => cases h
  | cons s rs ih =>
    rw [lookup?_cons] at h
    rw [refresh]
    split
    next hs =>
      rw [if_pos hs] at h
      obtain rfl := Option.some.inj h
      simp
    next hs =>
      rw [if_neg hs] at h
      rw [ih h]

theorem Recorded.upsert_eq (h : Recorded e p.resources) (hs : Sorted p.resources) : p.upsert e = p := by
  rw [ProjectFile.upsert, h.refresh_eq, sortResources_of_sorted hs]

theorem perm_insertResource : insertResource r rs ~ r :: rs := by
  induction rs with
  | nil => exact .refl _
  | cons s rs ih =>
    rw [insertResource]
    split
    next => exact .refl _
    next => exact (ih.cons s).trans (.swap r s rs)

theorem perm_sortResources : sortResources rs ~ rs := by
  induction rs with
  | nil => exact .refl _
  | cons r rs ih => exact perm_insertResource.trans (ih.cons r)

/-- Of the entries with other keys nothing is changed. -/
theorem filter_refresh {P : ProjectResource → Bool} (hP : ∀ a b, a.gvk = b.gvk → P a = P b) (h : ¬P r) :
    (refresh r rs).filter P = rs.filter P := by
  induction rs with
  | nil => exact List.filter_cons_of_neg h
  | cons s rs ih =>
    rw [refresh]
    split
    next hs =>
      have hr : ¬P { r with controller := s.controller || r.controller } := by
        rwa [hP { r with controller := s.controller || r.controller } r rfl]
      have hs : ¬P s := by rwa [hP s r hs]
      rw [List.filter_cons_of_neg hr, List.filter_cons_of_neg hs]
    next => rw [List.filter_cons, List.filter_cons, ih]

theorem perm_filter_foldl_upsert {P : ProjectResource → Bool} (hP : ∀ a b, a.gvk = b.gvk → P a = P b)
    (h : ∀ e ∈ es, ¬P e) : (es.foldl upsert p).resources.filter P ~ p.resources.filter P := by
  induction es generalizing p with
  | nil => exact .refl _
  | cons e es ih =>
    obtain ⟨he, hes⟩ := List.forall_mem_cons.1 h
    have hsorted : (p.upsert e).resources ~ refresh e p.resources := perm_sortResources
    have hkept := hsorted.filter P
    rw [filter_refresh hP he] at hkept
    exact (ih hes).trans hkept

theorem lookup?_foldl_upsert_of_ne (h : ∀ e ∈ es, key ≠ e.gvk) :
    lookup? (es.foldl upsert p).resources key = lookup? p.resources key := by
  induction es generalizing p with
  | nil => rfl
  | cons e es ih =>
    obtain ⟨he, hes⟩ := List.forall_mem_cons.1 h
    exact (ih hes).trans (lookup?_sortResources.trans (lookup?_refresh_of_ne he))

theorem lookup?_foldl_upsert (hn : (es.map (·.gvk)).Nodup) (he : e ∈ es) :
    lookup? (es.foldl upsert p).resources e.gvk =
      some { e with controller := controls p.resources e.gvk || e.controller } := by
  induction es generalizing p with
  | nil => cases he
  | cons r es ih =>
    obtain ⟨hr, hn⟩ := List.nodup_cons.1 hn
    obtain rfl | he := List.mem_cons.1 he
    · have hne : ∀ r ∈ es, e.gvk ≠ r.gvk := fun r hm h => hr (List.mem_map.2 ⟨r, hm, h.symm⟩)
      exact (lookup?_foldl_upsert_of_ne hne).trans (lookup?_sortResources.trans lookup?_refresh_self)
    · have hne : e.gvk ≠ r.gvk := fun h => hr (List.mem_map.2 ⟨e, he, h⟩)
      have hkept : controls (p.upsert r).resources e.gvk = controls p.resources e.gvk :=
        congrArg (Option.any _) (lookup?_sortResources.trans (lookup?_refresh_of_ne hne))
      rw [← hkept]
      exact ih hn he

theorem forall_recorded_foldl_upsert (hes : (es.map (·.gvk)).Nodup) :
    ∀ e ∈ es, Recorded e (es.foldl upsert p).resources := fun _ he => ⟨_, lookup?_foldl_upsert hes he⟩

theorem sorted_foldl_upsert (h : es ≠ []) : Sorted (es.foldl upsert p).resources := by
  obtain ⟨es, e, rfl⟩ := List.eq_nil_or_concat es |>.resolve_left h
  rw [List.concat_eq_append, List.foldl_append]
  exact sorted_sortResources _

theorem foldl_upsert_of_recorded (he : ∀ e ∈ es, Recorded e p.resources) (hs : Sorted p.resources) :
    es.foldl upsert p = p := by
  induction es with
  | nil => rfl
  | cons e es ih =>
    obtain ⟨he, hes⟩ := List.forall_mem_cons.1 he
    rw [List.foldl_cons, he.upsert_eq hs]
    exact ih hes

/-- The keys of some entries. -/
def keys (rs : List ProjectResource) : List GVK := rs.map (·.gvk)

theorem keys_cons : keys (r :: rs) = r.gvk :: keys rs := rfl

theorem keys_refresh : keys (refresh e rs) = if e.gvk ∈ keys rs then keys rs else keys rs ++ [e.gvk] := by
  induction rs with
  | nil => rfl
  | cons s rs ih =>
    rw [refresh]
    split
    next hs =>
      rw [keys_cons, keys_cons, hs, if_pos List.mem_cons_self]
      rfl
    next hs =>
      have hmem : e.gvk ∈ keys (s :: rs) ↔ e.gvk ∈ keys rs := List.mem_cons.trans (or_iff_right (Ne.symm hs))
      rw [keys_cons, ih, if_congr hmem rfl rfl]
      split <;> rfl

theorem mem_keys_refresh : key ∈ keys (refresh e rs) ↔ key ∈ keys rs ∨ key = e.gvk := by
  rw [keys_refresh]
  split
  next h => exact (or_iff_left_of_imp fun hk => hk ▸ h).symm
  next => simp

theorem nodup_keys_refresh (h : (keys rs).Nodup) : (keys (refresh e rs)).Nodup := by
  rw [keys_refresh]
  split
  next => exact h
  next he => exact (List.perm_append_singleton _ _).nodup_iff.2 (List.nodup_cons.2 ⟨he, h⟩)

theorem perm_keys_upsert : keys (p.upsert e).resources ~ keys (refresh e p.resources) :=
  perm_sortResources.map _

theorem nodup_keys_foldl_upsert (h : (keys p.resources).Nodup) :
    (keys (es.foldl upsert p).resources).Nodup := by
  induction es generalizing p with
  | nil => exact h
  | cons e es ih => exact ih (perm_keys_upsert.nodup_iff.2 (nodup_keys_refresh h))

theorem mem_keys_foldl_upsert :
    key ∈ keys (es.foldl upsert p).resources ↔ key ∈ keys p.resources ∨ key ∈ keys es := by
  induction es generalizing p with
  | nil => simp [keys]
  | cons e es ih =>
    rw [List.foldl_cons, ih, perm_keys_upsert.mem_iff, mem_keys_refresh, keys_cons, List.mem_cons, or_assoc]

/-- A controller that is recorded for a key stays recorded, whatever is put in next. -/
theorem controls_upsert :
    controls (p.upsert e).resources key ↔ controls p.resources key ∨ e.gvk = key ∧ e.controller := by
  have hlookup : lookup? (p.upsert e).resources key = lookup? (refresh e p.resources) key := lookup?_sortResources
  rw [controls, hlookup]
  by_cases h : key = e.gvk
  · subst h
    rw [lookup?_refresh_self]
    simp
  · rw [lookup?_refresh_of_ne h, ← controls]
    simp [Ne.symm h]

theorem controls_foldl_upsert : controls (es.foldl upsert p).resources key ↔
    controls p.resources key ∨ ∃ e ∈ es, e.gvk = key ∧ e.controller := by
  induction es generalizing p with
  | nil => simp
  | cons e es ih =>
    rw [List.foldl_cons, ih, controls_upsert, List.exists_mem_cons_iff, or_assoc]

theorem controls_of_mem (hn : (keys rs).Nodup) (he : e ∈ rs) : controls rs e.gvk = e.controller := by
  induction rs with
  | nil => cases he
  | cons s rs ih =>
    obtain ⟨hs, hn⟩ := List.nodup_cons.1 hn
    rw [controls, lookup?_cons]
    obtain rfl | he := List.mem_cons.1 he
    · rw [if_pos rfl]
      rfl
    · rw [if_neg fun h => hs (List.mem_map.2 ⟨e, he, h.symm⟩)]
      exact ih hn he

end ProjectFile

end OperatorScaffold

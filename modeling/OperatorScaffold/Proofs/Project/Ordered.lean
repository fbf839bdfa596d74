import Mathlib.Data.List.Sort
import OperatorScaffold.Proofs.Project.Recording
/-!
Entries as a map that is kept in the order of its keys. What is put in is found under its key, whatever the
order it is put in, and the list is no more than what is found.
-/

namespace OperatorScaffold

theorem GVK.rank_injective : Function.Injective GVK.rank := by
  rintro ⟨g, v, k⟩ ⟨g', v', k'⟩ h
  simpa [rank] using h

namespace ProjectFile

open scoped List

variable {p : ProjectFile} {a b e r : ProjectResource} {rs ss es before after : List ProjectResource} {key : GVK}

/-- Each entry comes before those of greater keys, and no key comes twice. -/
def Ordered (rs : List ProjectResource) : Prop := rs.Pairwise fun a b => a.gvk.rank < b.gvk.rank

theorem Sorted.ordered (h : Sorted rs) (hn : (keys rs).Nodup) : Ordered rs := by
  have hne : rs.Pairwise fun a b => a.gvk ≠ b.gvk := List.pairwise_map.1 hn
  exact h.imp₂ (fun a b hle hne => lt_of_le_of_ne hle fun he => hne (GVK.rank_injective he)) hne

theorem lookup?_eq_some_iff (hn : (keys rs).Nodup) : lookup? rs key = some r ↔ r ∈ rs ∧ r.gvk = key := by
  constructor
  · intro h
    exact ⟨List.mem_of_find?_eq_some h, by simpa using List.find?_some (l := rs) h⟩
  · rintro ⟨h, rfl⟩
    induction rs with
    | nil => cases h
    | cons s rs ih =>
      obtain ⟨hs, hn⟩ := List.nodup_cons.1 hn
      rw [lookup?_cons]
      obtain rfl | h := List.mem_cons.1 h
      · exact if_pos rfl
      · rw [if_neg fun he => hs (List.mem_map.2 ⟨r, h, he.symm⟩)]
        exact ih hn h

theorem mem_iff_lookup? (hn : (keys rs).Nodup) : r ∈ rs ↔ lookup? rs r.gvk = some r := by
  rw [lookup?_eq_some_iff hn, and_iff_left rfl]

/-- Two lists in order hold the same if the same is found in them. -/
theorem Ordered.eq_of_lookup? (hr : Ordered rs) (hs : Ordered ss) (h : ∀ key, lookup? rs key = lookup? ss key) :
    rs = ss := by
  have hkeys {ts : List ProjectResource} (ht : Ordered ts) : (keys ts).Nodup :=
    List.pairwise_map.2 (ht.imp fun hlt he => hlt.ne (congrArg GVK.rank he))
  have hmem : ∀ r, r ∈ rs ↔ r ∈ ss := fun r => by
    rw [mem_iff_lookup? (hkeys hr), mem_iff_lookup? (hkeys hs), h]
  have hperm : rs ~ ss :=
    (List.perm_ext_iff_of_nodup (hkeys hr).of_map (hkeys hs).of_map).2 hmem
  exact hperm.eq_of_pairwise (fun a b _ _ hab hba => absurd hab hba.not_gt) hr hs

theorem ordered_foldl_upsert (hn : (keys p.resources).Nodup) (hes : es ≠ []) :
    Ordered (es.foldl upsert p).resources :=
  (sorted_foldl_upsert hes).ordered (nodup_keys_foldl_upsert hn)

theorem lookup?_upsert_self : lookup? (p.upsert e).resources e.gvk =
    some { e with controller := controls p.resources e.gvk || e.controller } :=
  lookup?_sortResources.trans lookup?_refresh_self

theorem lookup?_upsert_of_ne (h : key ≠ e.gvk) : lookup? (p.upsert e).resources key = lookup? p.resources key :=
  lookup?_sortResources.trans (lookup?_refresh_of_ne h)

/-- What is found of two entries that are put in does not depend on which comes first. -/
theorem lookup?_upsert_upsert (h : a.gvk ≠ b.gvk) :
    lookup? ((p.upsert a).upsert b).resources key = lookup? ((p.upsert b).upsert a).resources key := by
  have hkept {a b : ProjectResource} (h : a.gvk ≠ b.gvk) : lookup? ((p.upsert a).upsert b).resources a.gvk =
      lookup? ((p.upsert b).upsert a).resources a.gvk := by
    have hcontrols : controls (p.upsert b).resources a.gvk = controls p.resources a.gvk :=
      congrArg (Option.any _) (lookup?_upsert_of_ne h)
    rw [lookup?_upsert_of_ne h, lookup?_upsert_self, lookup?_upsert_self, hcontrols]
  by_cases ha : key = a.gvk
  · exact ha ▸ hkept h
  · by_cases hb : key = b.gvk
    · exact hb ▸ (hkept h.symm).symm
    · rw [lookup?_upsert_of_ne hb, lookup?_upsert_of_ne ha, lookup?_upsert_of_ne ha, lookup?_upsert_of_ne hb]

theorem upsert_comm (hn : (keys p.resources).Nodup) (h : a.gvk ≠ b.gvk) :
    (p.upsert a).upsert b = (p.upsert b).upsert a := by
  have hordered (a b : ProjectResource) : Ordered ([a, b].foldl upsert p).resources :=
    ordered_foldl_upsert hn (List.cons_ne_nil _ _)
  have hresources : ((p.upsert a).upsert b).resources = ((p.upsert b).upsert a).resources :=
    (hordered a b).eq_of_lookup? (hordered b a) fun _ => lookup?_upsert_upsert h
  exact congrArg (fun rs => { p with resources := rs }) hresources

theorem controls_iff (hn : (keys rs).Nodup) : controls rs key ↔ ∃ r ∈ rs, r.gvk = key ∧ r.controller := by
  simp only [controls, Option.any_eq_true, lookup?_eq_some_iff hn, and_assoc]

/-- Of the entries that are put in under a key the last one is found. -/
theorem lookup?_foldl_upsert_last (h : e.gvk ∉ keys after) :
    ∃ c : Bool, lookup? ((before ++ e :: after).foldl upsert p).resources e.gvk = some { e with controller := c } ∧
      (c ↔ controls p.resources e.gvk ∨ ∃ x ∈ before ++ e :: after, x.gvk = e.gvk ∧ x.controller) := by
  have hne : ∀ x ∈ after, e.gvk ≠ x.gvk := fun x hx he => h (List.mem_map.2 ⟨x, hx, he.symm⟩)
  have hlookup : lookup? ((before ++ e :: after).foldl upsert p).resources e.gvk =
      some { e with controller := controls (before.foldl upsert p).resources e.gvk || e.controller } := by
    rw [List.foldl_append, List.foldl_cons, lookup?_foldl_upsert_of_ne hne, lookup?_upsert_self]
  refine ⟨_, hlookup, ?_⟩
  have hcontrols : controls ((before ++ e :: after).foldl upsert p).resources e.gvk ↔ _ := controls_foldl_upsert
  rwa [controls, hlookup] at hcontrols

/-- Putting entries in one after the other keeps a map from keys to entries in the order of the keys. The last
entry of a key is the one that stays, with a controller if there has been one under the key. -/
theorem upserts_keep_an_ordered_map (hn : (keys p.resources).Nodup) (hes : es ≠ []) :
    Ordered (es.foldl upsert p).resources ∧
    (∀ key, key ∈ keys (es.foldl upsert p).resources ↔ key ∈ keys p.resources ∨ key ∈ keys es) ∧
    (∀ r, r.gvk ∉ keys es → (r ∈ (es.foldl upsert p).resources ↔ r ∈ p.resources)) ∧
    (∀ before e after, es = before ++ e :: after → e.gvk ∉ keys after →
      ∃ c : Bool, { e with controller := c } ∈ (es.foldl upsert p).resources ∧
        (c ↔ (∃ r ∈ p.resources, r.gvk = e.gvk ∧ r.controller) ∨ ∃ x ∈ es, x.gvk = e.gvk ∧ x.controller)) ∧
    es.foldl upsert p = { p with resources := (es.foldl upsert p).resources } ∧
    ∀ a b, a.gvk ≠ b.gvk → (p.upsert a).upsert b = (p.upsert b).upsert a := by
  have hkeys : (keys (es.foldl upsert p).resources).Nodup := nodup_keys_foldl_upsert hn
  refine ⟨ordered_foldl_upsert hn hes, fun _ => mem_keys_foldl_upsert, fun r hr => ?_, ?_, foldl_upsert_eq es,
    fun _ _ => upsert_comm hn⟩
  · have hne : ∀ x ∈ es, r.gvk ≠ x.gvk := fun x hx he => hr (List.mem_map.2 ⟨x, hx, he.symm⟩)
    rw [mem_iff_lookup? hkeys, mem_iff_lookup? hn, lookup?_foldl_upsert_of_ne hne]
  · rintro before e after rfl hlast
    obtain ⟨c, hlookup, hc⟩ := lookup?_foldl_upsert_last hlast
    exact ⟨c, (mem_iff_lookup? hkeys).2 hlookup, hc.trans (or_congr_left (controls_iff hn))⟩

end ProjectFile

namespace Shelf

def entry (kind plural : String) (controller : Bool) : ProjectResource :=
  ⟨none, controller, none, "apps", kind, none, some plural, "v1"⟩

/-- Two entries that are not in order yet. -/
def project : ProjectFile :=
  { ProjectFile.blank with resources := [entry "Widget" "widgets" false, entry "Gadget" "gadgets" true] }

def entries : List ProjectResource :=
  [entry "Gadget" "gizmos" false, entry "Cache" "caches" false, entry "Gadget" "gadgetry" false]

theorem upserts_keep_an_ordered_map_with_a_kind_put_in_twice :
    (ProjectFile.keys project.resources).Nodup ∧ entries ≠ [] ∧
    ProjectFile.Ordered (entries.foldl ProjectFile.upsert project).resources ∧
    entry "Gadget" "gadgetry" true ∈ (entries.foldl ProjectFile.upsert project).resources ∧
    entry "Widget" "widgets" false ∈ (entries.foldl ProjectFile.upsert project).resources := by
  have hn : (ProjectFile.keys project.resources).Nodup := by decide
  have hes : entries ≠ [] := by decide
  obtain ⟨hordered, -, hkept, hlast, -⟩ := ProjectFile.upserts_keep_an_ordered_map hn hes
  obtain ⟨c, hmem, hc⟩ := hlast [entry "Gadget" "gizmos" false, entry "Cache" "caches" false]
    (entry "Gadget" "gadgetry" false) [] rfl (by decide)
  have hcontrolled : c := hc.2 (.inl ⟨entry "Gadget" "gadgets" true, by decide, by decide⟩)
  refine ⟨hn, hes, hordered, ?_, (hkept (entry "Widget" "widgets" false) (by decide)).2 (by decide)⟩
  rwa [hcontrolled] at hmem

end Shelf

end OperatorScaffold

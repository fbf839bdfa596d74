import Mathlib.Data.List.Perm.Basic
import OperatorScaffold.Json.Value
/-!
The members of an object that is put together one by one.
-/

namespace OperatorScaffold.Json

open scoped List

variable {α : Type} {name n : String} {v : α} {ms acc : List (String × α)} {s x : Json}
  {m : List (String × Json)}

theorem perm_insertMember (h : name ∉ ms.map Prod.fst) :
    insertMember name v ms ~ (name, v) :: ms := by
  induction ms with
  | nil => exact .refl _
  | cons m ms ih =>
    obtain ⟨n, x⟩ := m
    rw [List.map_cons, List.mem_cons, not_or] at h
    rw [insertMember]
    split
    · exact .refl _
    · rw [if_neg h.1]
      exact ((ih h.2).cons _).trans (.swap _ _ _)

theorem perm_foldl_insertMember (h : ((acc ++ ms).map Prod.fst).Nodup) :
    ms.foldl (fun acc m => insertMember m.1 m.2 acc) acc ~ acc ++ ms := by
  induction ms generalizing acc with
  | nil => rw [List.append_nil, List.foldl_nil]
  | cons m ms ih =>
    have hm : m.1 ∉ acc.map Prod.fst := by
      rw [List.map_append, List.nodup_append] at h
      exact fun hm => h.2.2 _ hm _ (by simp) rfl
    have hins := perm_insertMember (v := m.2) hm
    have hmid : insertMember m.1 m.2 acc ++ ms ~ acc ++ m :: ms :=
      (hins.append_right ms).trans List.perm_middle.symm
    exact (ih ((hmid.map _).nodup_iff.2 h)).trans hmid

theorem mem_iff_lookup (h : (ms.map Prod.fst).Nodup) : ms.lookup n = some v ↔ (n, v) ∈ ms := by
  induction ms with
  | nil => simp
  | cons m ms ih =>
    obtain ⟨name, x⟩ := m
    rw [List.map_cons, List.nodup_cons] at h
    rw [List.lookup_cons, List.mem_cons]
    by_cases hn : n = name
    · subst hn
      rw [beq_self_eq_true]
      refine ⟨fun hx => .inl (by rw [Option.some.inj hx]), fun hx => ?_⟩
      obtain hx | hx := hx
      · rw [(Prod.mk.inj hx).2]
      · exact absurd (List.mem_map_of_mem hx) h.1
    · rw [beq_false_of_ne hn, ih h.2]
      simp [hn]

variable (hn : (m.map Prod.fst).Nodup)

include hn

/-- Members of different names all become members of the object. -/
theorem ofMembers_spec : ∃ ms, ofMembers m = .obj ms ∧ ms ~ m :=
  ⟨_, rfl, perm_foldl_insertMember (show (([] ++ m).map Prod.fst).Nodup from hn)⟩

theorem get?_ofMembers : (ofMembers m).get? n = some x ↔ (n, x) ∈ m := by
  obtain ⟨ms, he, hp⟩ := ofMembers_spec hn
  rw [he, get?, mem_iff_lookup ((hp.map _).nodup_iff.2 hn)]
  exact hp.mem_iff

end OperatorScaffold.Json

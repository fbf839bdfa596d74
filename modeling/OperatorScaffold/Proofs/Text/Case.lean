import OperatorScaffold.Text.CaseMap
/-!
Case maps lead to letters only: a character in front of the letters is in the result where it is in
the text.
-/

namespace OperatorScaffold.Text

variable {c d : Char} {cs before : List Char} {s : String}

theorem toLower_ne (hd : d.toNat < 65) (h : c ≠ d) : c.toLower ≠ d := by
  unfold Char.toLower
  split
  next hc =>
    intro e
    have hl : 65 ≤ c.val.toNat := UInt32.le_iff_toNat_le.1 hc.1
    have hu : c.val.toNat ≤ 90 := UInt32.le_iff_toNat_le.1 hc.2
    have hv : (c.val + ('a'.val - 'A'.val)).toNat = d.toNat := congrArg Char.toNat e
    rw [UInt32.toNat_add, show ('a'.val - 'A'.val).toNat = 32 from rfl] at hv
    omega
  next => exact h

theorem toUpper_ne (hd : d.toNat < 65) (h : c ≠ d) : c.toUpper ≠ d := by
  unfold Char.toUpper
  split
  next hc =>
    intro e
    have hl : 97 ≤ c.val.toNat := UInt32.le_iff_toNat_le.1 hc.1
    have hu : c.val.toNat ≤ 122 := UInt32.le_iff_toNat_le.1 hc.2
    have hv := congrArg (fun x : Char => x.val.toNat) e
    dsimp only at hv
    rw [UInt32.toNat_add, UInt32.toNat_sub, show 'A'.val.toNat = 65 from rfl,
      show 'a'.val.toNat = 97 from rfl] at hv
    change d.val.toNat < 65 at hd
    omega
  next => exact h

/-- The table leads to letters only. -/
def LeadsToLetters (runs : List CaseRun) (sequences : List (Nat × List Nat)) : Prop :=
  (∀ r ∈ runs, 65 ≤ r.first + r.offset) ∧ ∀ s ∈ sequences, ∀ n ∈ s.2, 65 ≤ n

theorem toNat_ofNat_of_le {n : Nat} (h : 65 ≤ n) : (Char.ofNat n).toNat = 0 ∨ 65 ≤ (Char.ofNat n).toNat := by
  by_cases hn : n.isValidChar
  · rw [Char.ofNat, dif_pos hn]
    exact .inr h
  · rw [Char.ofNat, dif_neg hn]
    exact .inl rfl

theorem not_mem_mapCase {runs : List CaseRun} {sequences : List (Nat × List Nat)}
    (ht : LeadsToLetters runs sequences) (hd : d.toNat < 65) (hz : d.toNat ≠ 0) (h : c ≠ d) :
    d ∉ mapCase runs sequences c := by
  have hne (n : Nat) (hn : 65 ≤ n) : Char.ofNat n ≠ d := by
    rintro rfl
    obtain hn | hn := toNat_ofNat_of_le hn
    · exact hz hn
    · omega
  unfold mapCase
  split
  next cs hcs =>
    intro hm
    obtain ⟨n, hn, he⟩ := List.mem_map.1 hm
    obtain ⟨_, _, hs, -⟩ := List.lookup_eq_some_iff.1 hcs
    exact hne n (ht.2 (c.toNat, cs) (by simp [hs]) n hn) he
  next =>
    split
    next r hr =>
      have hc : r.contains c.toNat := List.find?_some (p := fun r : CaseRun => r.contains c.toNat) hr
      have hfirst : r.first ≤ c.toNat := by
        simp only [CaseRun.contains, Bool.and_eq_true, decide_eq_true_eq] at hc
        exact hc.1.1
      have hr := ht.1 r (List.mem_of_find?_eq_some hr)
      rw [List.mem_singleton]
      exact (hne _ (by omega)).symm
    next => simpa using h.symm

theorem lower_leadsToLetters : LeadsToLetters CaseTable.lower CaseTable.lowerSequences := by
  constructor <;> decide +kernel

theorem upper_leadsToLetters : LeadsToLetters CaseTable.upper CaseTable.upperSequences := by
  constructor <;> decide +kernel

section

variable (hd : d.toNat < 65) (hz : d.toNat ≠ 0)

include hd hz

theorem not_mem_charLower (h : c ≠ d) : d ∉ charLower c := by
  unfold charLower
  split
  · simpa using (toLower_ne hd h).symm
  · exact not_mem_mapCase lower_leadsToLetters hd hz h

theorem not_mem_charUpper (h : c ≠ d) : d ∉ charUpper c := by
  unfold charUpper
  split
  · simpa using (toUpper_ne hd h).symm
  · exact not_mem_mapCase upper_leadsToLetters hd hz h

theorem not_mem_lowerAfter (h : d ∉ cs) : d ∉ lowerAfter before cs := by
  induction cs generalizing before with
  | nil => exact h
  | cons c cs ih =>
    have hc : c ≠ d := fun e => h (e ▸ List.mem_cons_self)
    simp only [lowerAfter, List.mem_append, not_or]
    refine ⟨?_, ih fun hm => h (List.mem_cons_of_mem c hm)⟩
    split
    · have hσ : d ≠ 'σ' := by rintro rfl; exact absurd hd (by decide)
      have hς : d ≠ 'ς' := by rintro rfl; exact absurd hd (by decide)
      split <;> simpa
    · exact not_mem_charLower hd hz hc

theorem not_mem_toLower (h : d ∉ s.toList) : d ∉ (toLower s).toList := by
  rw [toLower, String.toList_ofList]
  exact not_mem_lowerAfter hd hz h

theorem not_mem_upperFirst (h : d ∉ cs) : d ∉ upperFirst cs := by
  cases cs with
  | nil => exact h
  | cons c cs =>
    rw [List.mem_cons, not_or] at h
    simpa [upperFirst, h.2] using not_mem_charUpper hd hz (Ne.symm h.1)

end

end OperatorScaffold.Text

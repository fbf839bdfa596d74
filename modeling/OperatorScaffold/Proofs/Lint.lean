import OperatorScaffold.Lint
import OperatorScaffold.Proofs.Graph.Validation
import OperatorScaffold.Proofs.Text.Split
/-!
The gravest advice beside the check of identities. Both look at kind, group and version, and they part
at groups only: advice looks at the labels of a group, the check at its characters.
-/

namespace OperatorScaffold

open Naming Text Validation

/-- No label of a host name, whatever its characters are. -/
def OddLabel (s : String) : Prop :=
  s = "" ∨ 63 < s.length ∨ s.toList.head? = some '-' ∨ s.toList.getLast? = some '-'

/-- The characters are those of a group, but not every label between the dots is one. -/
def Resource.OddGroup (r : Resource) : Prop :=
  IsGroup r.group ∧ ∃ label ∈ splitAtChar '.' r.group, OddLabel label

theorem isDnsLabel_iff {s : String} :
    isDnsLabel s ↔ (∀ c ∈ s.toList, isLower c ∨ isDigit c ∨ c = '-') ∧ ¬OddLabel s := by
  simp only [isDnsLabel, OddLabel, Bool.and_eq_true, List.all_eq_true, Bool.or_eq_true, beq_iff_eq,
    decide_eq_true_eq, bne_iff_ne, Bool.not_eq_true', List.isEmpty_eq_false_iff, not_or, not_lt,
    String.length_toList, ne_eq, String.toList_eq_nil_iff, or_assoc]
  tauto

theorem forall_mem_splitAtChar {P : Char → Prop} {sep : Char} {s : String} :
    (∀ label ∈ splitAtChar sep s, ∀ c ∈ label.toList, P c) ↔ ∀ c ∈ s.toList, P c ∨ c = sep := by
  simp only [splitAtChar, List.forall_mem_map, String.toList_ofList, forall_mem_splitWhere, beq_iff_eq, or_comm]

theorem forall_isDnsLabel_iff {s : String} : (∀ label ∈ splitAtChar '.' s, isDnsLabel label) ↔
    IsGroup s ∧ ∀ label ∈ splitAtChar '.' s, ¬OddLabel label := by
  have hempty : OddLabel "" := .inl rfl
  simp only [isDnsLabel_iff, forall_and, forall_mem_splitAtChar, IsGroup]
  constructor
  · rintro ⟨hchars, hodd⟩
    refine ⟨⟨?_, fun c hc => by simpa [or_assoc] using hchars c hc⟩, hodd⟩
    rintro rfl
    exact hodd "" (by decide) hempty
  · rintro ⟨⟨-, hchars⟩, hodd⟩
    exact ⟨fun c hc => by simpa [or_assoc] using hchars c hc, hodd⟩

namespace Lint

variable {w : Workload} {r : Resource} {i : Issue}

theorem mem_issueIf {p : Bool} {j : Issue} : i ∈ issueIf p j ↔ p ∧ i = j := by
  cases p <;> simp [issueIf]

theorem severity_ne_of_mem_ownFieldIssues {location name : String} {required hasDefault : Bool}
    {description : Option String} (h : i ∈ ownFieldIssues location name required hasDefault description) :
    i.severity ≠ .error := by
  simp only [ownFieldIssues, List.mem_append, mem_issueIf] at h
  obtain (⟨-, rfl⟩ | ⟨-, rfl⟩) | ⟨-, rfl⟩ := h <;> nofun

theorem severity_ne_of_mem_fieldIssues {path : String} {fs : List Field} (h : i ∈ fieldIssues path fs) :
    i.severity ≠ .error := by
  fun_induction fieldIssues path fs with
  | case1 => cases h
  | case2 path name _ default required description inner fs location ihinner ihfs =>
    simp only [List.mem_append] at h
    obtain (h | h) | h := h
    · exact severity_ne_of_mem_ownFieldIssues h
    · exact ihinner h
    · exact ihfs h

theorem severity_ne_of_mem_overrideIssues (h : i ∈ overrideIssues w r) : i.severity ≠ .error := by
  unfold overrideIssues at h
  split at h
  next => cases h
  next =>
    obtain ⟨-, rfl⟩ := mem_issueIf.1 h
    nofun

theorem exists_error_iff : (∃ i ∈ resourceIssues w r, i.severity = .error) ↔
    ¬UpperCamel r.kind ∨ ¬(∀ label ∈ splitAtChar '.' r.group, isDnsLabel label) ∨ ¬KubeVersion r.version := by
  rw [← isUpperCamel_iff, ← isKubeVersion_iff]
  simp only [resourceIssues, kindIssues, groupIssues, versionIssues, List.mem_append, mem_issueIf]
  constructor
  · rintro ⟨i, (((⟨h, -⟩ | ⟨h, -⟩) | ⟨h, -⟩) | h) | h, hi⟩
    · exact .inl (by simpa using h)
    · exact .inr (.inl (by simpa using h))
    · exact .inr (.inr (by simpa using h))
    · exact absurd hi (severity_ne_of_mem_overrideIssues h)
    · exact absurd hi (severity_ne_of_mem_fieldIssues h)
  · rintro (h | h | h)
    · exact ⟨_, .inl (.inl (.inl (.inl ⟨by simpa using h, rfl⟩))), rfl⟩
    · exact ⟨_, .inl (.inl (.inl (.inr ⟨by simpa using h, rfl⟩))), rfl⟩
    · exact ⟨_, .inl (.inl (.inr ⟨by simpa using h, rfl⟩)), rfl⟩

theorem isSome_failure?_iff {is : List Issue} : (failure? is).isSome ↔ ∃ i ∈ is, i.severity = .error := by
  have hnone : (ofSeverity .error is).length = 0 ↔ ∀ i ∈ is, i.severity ≠ .error := by
    simp [ofSeverity]
  dsimp only [failure?]
  split
  next h => simpa using hnone.1 h
  next h => simpa using mt hnone.2 h

end Lint

/-- With one plural or another, the check rejects a part that is not the plural. -/
def Resource.Refused (r : Resource) : Prop :=
  ∃ plural part value, part ≠ "plural" ∧
    checkIdentity { r with plural } = .error (.invalidIdentity r.name part value)

theorem Resource.refused_iff {r : Resource} :
    r.Refused ↔ ¬UpperCamel r.kind ∨ ¬IsGroup r.group ∨ ¬KubeVersion r.version := by
  rw [← isUpperCamel_iff, ← isGroup_iff, ← isKubeVersion_iff]
  unfold Refused checkIdentity
  constructor
  · rintro ⟨plural, part, value, hpart, h⟩
    split at h
    next hk => exact .inl (by simpa using hk)
    split at h
    next => exact absurd (ValidationError.invalidIdentity.inj (Except.error.inj h)).2.1.symm hpart
    split at h
    next hg => exact .inr (.inl (by simpa using hg))
    split at h
    next hv => exact .inr (.inr (by simpa using hv))
    cases h
  · intro h
    have hplural : isPlural "x" := by decide
    by_cases hk : isUpperCamel r.kind
    · by_cases hg : isGroup r.group
      · have hv : ¬isKubeVersion r.version := by simpa [hk, hg] using h
        exact ⟨"x", "version", r.version, by decide, by simp [hk, hplural, hg, hv]⟩
      · exact ⟨"x", "group", r.group, by decide, by simp [hk, hplural, hg]⟩
    · exact ⟨"x", "kind", r.kind, by decide, by simp [hk]⟩

theorem Lint.exists_error_iff_refused {w : Workload} {r : Resource} :
    (∃ i ∈ resourceIssues w r, i.severity = .error) ↔ r.Refused ∨ r.OddGroup := by
  rw [exists_error_iff, forall_isDnsLabel_iff, Resource.refused_iff, Resource.OddGroup]
  by_cases hg : IsGroup r.group
  · simp only [hg, true_and, not_forall, not_not, exists_prop, not_true, false_or, or_assoc]
    rw [or_comm (b := ¬KubeVersion r.version)]
  · simp [hg]

/-- A resource is given an error if and only if the check of identities rejects its kind, group or
version, or its group is odd. So advice fails an accepted workload if and only if a group is odd. -/
theorem Workload.lint_errors_are_refusals_or_odd_groups (w : Workload) :
    (∀ r, (∃ i ∈ Lint.resourceIssues w r, i.severity = .error) ↔ r.Refused ∨ r.OddGroup) ∧
    ((Lint.failure? (Lint.issues w)).isSome ↔ ∃ r ∈ w.resources, r.Refused ∨ r.OddGroup) ∧
    ∀ order, w.validate = .ok order →
      ((Lint.failure? (Lint.issues w)).isSome ↔ ∃ r ∈ w.resources, r.OddGroup) := by
  have hfails : (Lint.failure? (Lint.issues w)).isSome ↔ ∃ r ∈ w.resources, r.Refused ∨ r.OddGroup := by
    simp only [Lint.isSome_failure?_iff, Lint.issues, List.mem_flatMap, ← Lint.exists_error_iff_refused (w := w)]
    constructor
    · rintro ⟨i, ⟨r, hr, hi⟩, he⟩
      exact ⟨r, hr, i, hi, he⟩
    · rintro ⟨r, hr, i, hi, he⟩
      exact ⟨i, ⟨r, hr, hi⟩, he⟩
  refine ⟨fun r => Lint.exists_error_iff_refused, hfails, fun order h => ?_⟩
  have hshaped : ∀ r ∈ w.resources, r.WellShaped := ((decides_validate w).ok order h .shapes).1
  have hpasses : ∀ r ∈ w.resources, ¬r.Refused := fun r hr => by
    have hs := hshaped r hr
    rw [Resource.refused_iff]
    simp [hs.kind, hs.group, hs.version]
  rw [hfails]
  exact exists_congr fun r => and_congr_right fun hr => or_iff_right (hpasses r hr)

theorem Workload.lint_errors_are_refusals_or_odd_groups_of_a_hyphen_in_front :
    let r : Resource :=
      ⟨"lamp", .standalone, "-apps", "v1", "Lamp", "lamps", true, [], [], [], none, false, "w.yaml"⟩
    let w : Workload := ⟨"lamp", "w.yaml", "r", ⟨"-apps", "v1", none, true⟩, [r], []⟩
    w.validate.isOk ∧ ¬r.Refused ∧ r.OddGroup ∧ (Lint.failure? (Lint.issues w)).isSome := by
  intro r w
  have hodd : r.OddGroup := by
    refine ⟨isGroup_iff.1 (by decide), "-apps", by decide, ?_⟩
    exact .inr (.inr (.inl (by decide)))
  have hv : w.validate.isOk := by decide +kernel
  cases hvalidate : w.validate with
  | error e => simp [hvalidate, Except.isOk, Except.toBool] at hv
  | ok order =>
    have hfails := (lint_errors_are_refusals_or_odd_groups w).2.2 order hvalidate
    refine ⟨rfl, ?_, hodd, hfails.2 ⟨r, List.mem_singleton_self r, hodd⟩⟩
    have hs := ((decides_validate w).ok order hvalidate .shapes).1 r (List.mem_singleton_self r)
    simp [Resource.refused_iff, hs.kind, hs.group, hs.version]

end OperatorScaffold

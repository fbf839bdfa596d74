import OperatorScaffold.Proofs.Graph.Validation
import OperatorScaffold.Proofs.Naming.Spelling
import OperatorScaffold.Proofs.Template
import OperatorScaffold.Proofs.Yaml.Ending
import OperatorScaffold.Proofs.Yaml.Reading
import OperatorScaffold.Proofs.Yaml.Scalar
/-!
The names of a resource as words of the YAML files, and the lines that such words stand in.
-/

namespace OperatorScaffold

open Naming Template Text Yaml

namespace Naming

variable {c : Char} {s : String}

theorem isAlphanumeric_toLower (h : isAlphanumeric c) : isAlphanumeric c.toLower :=
  forall_ascii (P := fun c => isAlphanumeric c → isAlphanumeric c.toLower) (by decide +kernel)
    (toNat_lt_of_isAlphanumeric h) h

theorem isLower_toLower (h : isUpper c) : isLower c.toLower :=
  forall_ascii (P := fun c => isUpper c → isLower c.toLower) (by decide +kernel)
    (toNat_lt_of_isAlphanumeric (isAlphanumeric_of_isUpper h)) h

theorem UpperCamel.exists_cons (h : UpperCamel s) : ∃ c cs, s.toList = c :: cs ∧ isUpper c := by
  obtain ⟨c, cs, hs, hc, -⟩ := h
  exact ⟨c, cs, hs, hc⟩

/-- A name that starts with a letter stands as it is. -/
theorem ink_of_alphanumeric {cs : List Char} (hcs : s.toList = c :: cs) (hc : IsLetter c)
    (h : ∀ c ∈ s.toList, isAlphanumeric c) : Ink s.toList :=
  .of_char (d := c) (by simp [hcs]) (Plain.ne_of_isLetter hc (by decide)) fun c hc =>
    isInkChar_of_isAlphanumeric (h c hc)

theorem ink_kind (h : UpperCamel s) : Ink s.toList := by
  obtain ⟨c, cs, hs, hc⟩ := h.exists_cons
  exact ink_of_alphanumeric hs (.inl hc) h.alphanumeric

theorem exists_cons_singular (h : UpperCamel s) : ∃ c cs, (toLower s).toList = c :: cs ∧ isLower c := by
  obtain ⟨c, cs, hs, hc⟩ := h.exists_cons
  refine ⟨c.toLower, cs.map Char.toLower, ?_, isLower_toLower hc⟩
  rw [toList_toLower_of_alphanumeric h.alphanumeric, hs, List.map_cons]

theorem ink_singular (h : UpperCamel s) : Ink (toLower s).toList := by
  obtain ⟨c, cs, hs, hc⟩ := exists_cons_singular h
  refine ink_of_alphanumeric hs (.inr hc) fun c hc => ?_
  rw [toList_toLower_of_alphanumeric h.alphanumeric] at hc
  obtain ⟨d, hd, rfl⟩ := List.mem_map.1 hc
  exact isAlphanumeric_toLower (h.alphanumeric d hd)

theorem exists_cons_version (h : KubeVersion s) : ∃ c cs, s.toList = c :: cs ∧ isLower c := by
  obtain ⟨major, rest, -, -, hs⟩ := h
  exact ⟨'v', major ++ rest, hs, by decide⟩

theorem ink_version (h : KubeVersion s) : Ink s.toList := by
  obtain ⟨c, cs, hs, hc⟩ := exists_cons_version h
  exact ink_of_alphanumeric hs (.inr hc) h.alphanumeric

end Naming

section

variable {s : String}

theorem isInkChar_of_lower {c : Char} (h : isLower c ∨ isDigit c ∨ c = '-' ∨ c = '.') : isInkChar c := by
  obtain h | h | rfl | rfl := h
  · exact isInkChar_of_isAlphanumeric (by simp [isAlphanumeric, h])
  · exact isInkChar_of_isAlphanumeric (by simp [isAlphanumeric, h])
  · decide
  · decide

theorem IsGroup.ink (h : IsGroup s) (hdash : s ≠ "-") : Ink s.toList where
  ne_nil := String.toList_eq_nil_iff.not.2 h.1
  ne_dash he := hdash (String.toList_inj.1 he)
  chars c hc := isInkChar_of_lower (h.2 c hc)

theorem IsPlural.ink (h : IsPlural s) (hdash : s ≠ "-") : Ink s.toList where
  ne_nil := String.toList_eq_nil_iff.not.2 h.1
  ne_dash he := hdash (String.toList_inj.1 he)
  chars c hc := isInkChar_of_lower ((h.2 c hc).imp_right fun h => h.imp_right .inl)

end

namespace Template

variable {i j : Nat} {s : String} {ls : List String}

theorem toList_joinLines_cons (l : String) (hne : ls ≠ []) :
    (joinLines (l :: ls)).toList = l.toList ++ (feed 0 ++ (joinLines ls).toList) := by
  obtain ⟨l', ls, rfl⟩ := List.exists_cons_of_ne_nil hne
  simp [joinLines, String.intercalate_cons_cons, feed]

/-- A word as the tree of a scalar. -/
def word (s : String) : Tree := .scalar none .plain s

/-- What is fixed in a template. -/
theorem ink_fixed (s : String) (hs : s.toList.all isInkChar ∧ s ≠ "" ∧ s ≠ "-") : Ink s.toList :=
  ⟨String.toList_eq_nil_iff.not.2 hs.2.1, fun he => hs.2.2 (String.toList_inj.1 he), List.all_eq_true.1 hs.1⟩

end Template

end OperatorScaffold

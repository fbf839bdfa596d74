import Mathlib.Tactic.Common
import OperatorScaffold.Proofs.Naming
import OperatorScaffold.Yaml.Reader
/-!
What words are read as that stand plainly in a line. A word that starts with a letter is no number.
-/

namespace OperatorScaffold

open Naming

namespace Decimal

variable {base acc : Nat} {c : Char} {cs : List Char}

theorem naturalFrom_eq_none (hc : c ∈ cs) (hd : digitValue? base c = none) : naturalFrom base acc cs = none := by
  induction cs generalizing acc with
  | nil => cases hc
  | cons x cs ih =>
    rw [naturalFrom]
    obtain rfl | hc := List.mem_cons.1 hc
    · rw [hd]
      rfl
    · cases digitValue? base x with
      | none => rfl
      | some d => exact ih hc

theorem natural?_eq_none (hc : c ∈ cs) (hd : digitValue? base c = none) : natural? base cs = none := by
  cases cs with
  | nil => cases hc
  | cons x cs => exact naturalFrom_eq_none hc hd

end Decimal

namespace Yaml

/-- The first character of a name. -/
def IsLetter (c : Char) : Prop := isUpper c ∨ isLower c

namespace Plain

open Decimal

variable {s : String} {c : Char} {cs : List Char}

theorem ne_of_isLetter {d : Char} (hc : IsLetter c) (hd : isUpper d = false ∧ isLower d = false) : c ≠ d := by
  rintro rfl
  obtain h | h := hc
  · rw [hd.1] at h
    cases h
  · rw [hd.2] at h
    cases h

theorem isDigit_of_isLetter (hc : IsLetter c) : isDigit c = false := by
  rw [← Bool.not_eq_true]
  intro hd
  simp only [isDigit, Bool.and_eq_true, decide_eq_true_eq] at hd
  obtain h | h := hc
  · simp only [isUpper, Bool.and_eq_true, decide_eq_true_eq] at h
    exact absurd (Char.le_trans h.1 hd.2) (by decide)
  · simp only [isLower, Bool.and_eq_true, decide_eq_true_eq] at h
    exact absurd (Char.le_trans h.1 hd.2) (by decide)

theorem digitValue?_of_isLetter (hc : IsLetter c) : digitValue? 10 c = none := by
  rw [digitValue?, isDigit_of_isLetter hc]
  simp only [Bool.false_eq_true, if_false]
  split
  · simp
  · split <;> simp

theorem int?_of_letter (hs : s.toList = c :: cs) (hc : IsLetter c) : int? s = none := by
  have hminus : c ≠ '-' := ne_of_isLetter hc (by decide)
  have hplus : c ≠ '+' := ne_of_isLetter hc (by decide)
  have hzero : c ≠ '0' := ne_of_isLetter hc (by decide)
  have hbased : based? (c :: cs) = none := by simp [based?, hzero]
  have hnatural : natural? 10 (c :: cs) = none := natural?_eq_none List.mem_cons_self (digitValue?_of_isLetter hc)
  unfold int?
  rw [hs]
  simp [magnitude?, hminus, hplus, hbased, hnatural]

theorem float?_of_letter (hs : s.toList = c :: cs) (hc : IsLetter c) : float? s = none := by
  have hminus : c ≠ '-' := ne_of_isLetter hc (by decide)
  have hplus : c ≠ '+' := ne_of_isLetter hc (by decide)
  have hpoint : c ≠ '.' := ne_of_isLetter hc (by decide)
  have hinf : isInfinity (c :: cs) = false := by simp [isInfinity, hpoint]
  have hnan : s ∉ [".nan", ".NaN", ".NAN"] := fun hm => by
    have hall : ∀ t ∈ [".nan", ".NaN", ".NAN"], t.toList.head? = some '.' := by decide
    have hhead := hall s hm
    rw [hs] at hhead
    exact hpoint (Option.some.inj hhead)
  have hfraction : fraction? (c :: cs) = none := by
    simp [fraction?, hminus, hplus, hpoint, isDigit_of_isLetter hc, natural?]
  unfold float?
  rw [hs]
  simpa [hminus, hplus, hinf, hfraction] using hnan

/-- The words of letters that are no texts. -/
def reserved : List String := ["null", "Null", "NULL", "true", "True", "TRUE", "false", "False", "FALSE"]

theorem isNullWord_iff (hs : s.toList = c :: cs) (hc : IsLetter c) : isNullWord s ↔ s ∈ ["null", "Null", "NULL"] := by
  have htilde : s ≠ "~" := by
    rintro rfl
    obtain ⟨rfl, -⟩ := List.cons.inj hs
    exact ne_of_isLetter hc (by decide) rfl
  simp [isNullWord, htilde]

theorem bool?_eq_none : bool? s = none ↔ s ∉ ["true", "True", "TRUE"] ∧ s ∉ ["false", "False", "FALSE"] := by
  have hcases (a b : Bool) : (if a then some true else if b then some false else none) = none ↔ ¬a ∧ ¬b := by
    cases a <;> cases b <;> decide
  exact (hcases _ _).trans (and_congr (not_congr List.contains_iff_mem) (not_congr List.contains_iff_mem))

/-- A word that starts with a letter is a text, unless it is one of the few words for nothing, true and false. -/
theorem resolve_of_letter (hs : s.toList = c :: cs) (hc : IsLetter c) : resolve s = .text ↔ s ∉ reserved := by
  have hne : s.isEmpty = false := by
    rw [← Bool.not_eq_true, String.isEmpty_iff]
    rintro rfl
    cases hs
  have hreserved : s ∉ reserved ↔ isNullWord s = false ∧ bool? s = none := by
    rw [← Bool.not_eq_true, isNullWord_iff hs hc, bool?_eq_none]
    simp [reserved]
    tauto
  rw [hreserved]
  unfold resolve
  rw [hne, Bool.false_or, integer?, int?_of_letter hs hc, float?_of_letter hs hc]
  cases isNullWord s <;> cases bool? s <;> simp

theorem float?_ne_wide (s : String) (n : Int) : float? s ≠ some (.wide n) := by
  unfold float?
  dsimp only
  intro h
  split at h <;> (try split at h) <;> (try split at h) <;> simp at h

theorem resolve_ne_wide (h : int? s = none) (n : Int) : resolve s ≠ .wide n := by
  have hfloat : (float? s).getD .text ≠ .wide n := fun hf => by
    cases hs : float? s with
    | none =>
      rw [hs] at hf
      cases hf
    | some p =>
      rw [hs] at hf
      exact float?_ne_wide s n (by rw [hs]; exact congrArg some hf)
  unfold resolve
  rw [integer?, h]
  split
  · nofun
  · cases bool? s with
    | some b => nofun
    | none =>
      change (if isPaddedDigits s then Plain.text else (float? s).getD .text) ≠ _
      split
      · nofun
      · exact hfloat

theorem magnitude?_of_slash {padded : Bool} (h : '/' ∈ cs) : magnitude? padded cs = none := by
  have hnatural {base : Nat} {ds : List Char} (hd : '/' ∈ ds) : natural? base ds = none := natural?_eq_none hd rfl
  have hbased : based? cs = none := by
    unfold based?
    split <;> first | rfl | exact hnatural (by simpa using h)
  unfold magnitude?
  rw [hbased, hnatural h]
  exact ite_self none

theorem int?_of_slash (h : '/' ∈ s.toList) : int? s = none := by
  unfold int?
  dsimp only
  split
  next cs hs =>
    rw [hs] at h
    rw [magnitude?_of_slash (by simpa using h)]
    rfl
  next cs hs =>
    rw [hs] at h
    rw [magnitude?_of_slash (by simpa using h)]
    rfl
  next => rw [magnitude?_of_slash h, Option.map_none]

end Plain

/-- What is no number of more than 64 bits has a free value. -/
theorem exists_value_of_word {s : String} (h : Plain.int? s = none) :
    ∃ j, (scalarViews none .plain s).value? = some j := by
  have hwide := Plain.resolve_ne_wide h
  have hfree : (scalarViews none .plain s).value? = (Plain.resolve s).toValue? s >>= Value.scalarJson? := rfl
  rw [hfree]
  cases hp : Plain.resolve s with
  | wide n => exact absurd hp (hwide n)
  | _ => exact ⟨_, rfl⟩

end Yaml

end OperatorScaffold

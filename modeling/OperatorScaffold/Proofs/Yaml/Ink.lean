import Mathlib.Data.List.Basic
import OperatorScaffold.Proofs.Yaml.Word
import OperatorScaffold.Yaml.Printer
/-!
Names and numbers, which can stand in a line as they are.
-/

namespace OperatorScaffold.Yaml

open Cursor (isBreakChar isBlankChar)
open Naming (isAlphanumeric)

/-- The characters of names and numbers. -/
def isInkChar (c : Char) : Bool := isAlphanumeric c || c == '-' || c == '.' || c == '/' || c == '+'

/-- A name or a number. -/
structure Ink (cs : List Char) : Prop where
  ne_nil : cs ≠ []
  ne_dash : cs ≠ ['-']
  chars : ∀ c ∈ cs, isInkChar c

section

variable {c : Char} {cs ds : List Char}

theorem isInkChar_of_isAlphanumeric (h : isAlphanumeric c) : isInkChar c := by simp [isInkChar, h]

theorem isInkChar_of_isDigit (h : c.isDigit) : isInkChar c := by
  have hdigit : Naming.isDigit c := h
  exact isInkChar_of_isAlphanumeric (by simp [isAlphanumeric, hdigit])

theorem ne_of_isInkChar {d : Char} (h : isInkChar c) (hd : isInkChar d = false) : c ≠ d := by
  rintro rfl
  rw [hd] at h
  cases h

theorem Ink.of_char {d : Char} (hd : d ∈ cs) (hdash : d ≠ '-') (h : ∀ c ∈ cs, isInkChar c) : Ink cs where
  ne_nil := List.ne_nil_of_mem hd
  ne_dash := by
    rintro rfl
    exact hdash (List.mem_singleton.1 hd)
  chars := h

theorem isShown_of_isInkChar (h : isInkChar c) : isShown c := by
  simp only [isInkChar, isAlphanumeric, Naming.isDigit, Naming.isUpper, Naming.isLower, Bool.or_eq_true,
    Bool.and_eq_true, decide_eq_true_eq, beq_iff_eq, Char.le_def, UInt32.le_iff_toNat_le] at h
  obtain (((((⟨hlo, hhi⟩ | ⟨hlo, hhi⟩) | ⟨hlo, hhi⟩) | rfl) | rfl) | rfl) | rfl := h
  iterate 3
    change _ ≤ c.toNat at hlo
    change c.toNat ≤ _ at hhi
    simp at hlo hhi
    simp [isShown]
    omega
  all_goals decide

theorem Ink.shown (h : Ink cs) : ∀ c ∈ cs, isShown c := fun c hc => isShown_of_isInkChar (h.chars c hc)

theorem Ink.word (h : Ink cs) : Word cs where
  ne_nil := h.ne_nil
  solid c hc := by
    have hne {d : Char} (hd : isInkChar d = false) : c ≠ d := ne_of_isInkChar (h.chars c hc) hd
    simp [isBlankChar, isBreakChar, hne (d := ' ') (by decide), hne (d := '\t') (by decide),
      hne (d := '\r') (by decide), hne (d := '\n') (by decide), hne (d := '\x85') (by decide),
      hne (d := '\u2028') (by decide), hne (d := '\u2029') (by decide)]
  hash hhash := absurd (h.chars _ (List.mem_of_head? hhash)) (by decide)
  colon hcolon := absurd (h.chars _ (List.mem_of_getLast? hcolon)) (by decide)

theorem Ink.plainText (h : Ink cs) : PlainText cs where
  words := .one h.word
  lead := by
    rintro c r rfl
    have hc : isInkChar c := h.chars c List.mem_cons_self
    have hlist : "#,[]\x7b\x7d&*!|>'\"%@\x60".toList.contains c = false := by
      rw [← Bool.not_eq_true]
      intro hm
      have hall : "#,[]\x7b\x7d&*!|>'\"%@\x60".toList.all fun d => !isInkChar d := by decide
      simpa [hc] using List.all_eq_true.1 hall c (List.contains_iff_mem.1 hm)
    have hgap : ((c == '?' || c == ':' || c == '-') && followsGap r) = false := by
      have hquestion : c ≠ '?' := ne_of_isInkChar hc (by decide)
      have hcolon : c ≠ ':' := ne_of_isInkChar hc (by decide)
      cases r with
      | nil =>
        have hdash : c ≠ '-' := fun he => h.ne_dash (by rw [he])
        simp [hquestion, hcolon, hdash]
      | cons d r =>
        have hd := h.word.solid d (by simp)
        have hzero : d ≠ '\x00' := ne_of_isInkChar (h.chars d (by simp)) (by decide)
        simp only [Bool.not_eq_true', Bool.or_eq_false_iff] at hd
        simp [followsGap, isGapChar, hd, hzero]
    rw [isLeadIndicator, hlist, hgap]
    rfl

theorem Ink.feed_not_mem (h : Ink cs) : '\n' ∉ cs := fun hc => absurd (h.chars _ hc) (by decide)

theorem Ink.append (h : Ink cs) (hd : Ink ds) : Ink (cs ++ ds) where
  ne_nil := List.append_ne_nil_of_left_ne_nil h.ne_nil ds
  ne_dash he := by
    have hlen := congrArg List.length he
    have hc := List.length_pos_iff.2 h.ne_nil
    have hd := List.length_pos_iff.2 hd.ne_nil
    simp at hlen
    omega
  chars := List.forall_mem_append.2 ⟨h.chars, hd.chars⟩

end

theorem ink_toDigits (n : Nat) : Ink (Nat.toDigits 10 n) := by
  have hdigit : ∀ c ∈ Nat.toDigits 10 n, c.isDigit := fun c hc => Nat.isDigit_of_mem_toDigits (by decide) (by decide) hc
  obtain ⟨c, r, hcs⟩ := List.exists_cons_of_ne_nil (Nat.toDigits_ne_nil (n := n) (b := 10))
  refine .of_char (d := c) (by simp [hcs]) ?_ fun c hc => isInkChar_of_isDigit (hdigit c hc)
  rintro rfl
  exact absurd (hdigit '-' (by simp [hcs])) (by decide)

theorem ink_toString (n : Int) : Ink (toString n).toList := by
  cases n with
  | ofNat n => exact Nat.toList_repr ▸ ink_toDigits n
  | negSucc n =>
    change Ink ("-" ++ (n + 1).repr).toList
    rw [String.toList_append, Nat.toList_repr]
    have hdigits := ink_toDigits (n + 1)
    obtain ⟨c, r, hcs⟩ := List.exists_cons_of_ne_nil hdigits.ne_nil
    refine ⟨by simp, fun he => ?_, List.forall_mem_append.2 ⟨List.all_eq_true.1 (by decide), hdigits.chars⟩⟩
    simp [hcs] at he

theorem ink_write (style : Decimal.Style) (x : Decimal.Binary64) : Ink (style.write x).toList := by
  have hzero : isInkChar '0' := by decide
  have hpoint : isInkChar '.' := by decide
  have hexp : isInkChar 'e' := by decide
  have hminus : isInkChar '-' := by decide
  have hplus : isInkChar '+' := by decide
  have hall (n : Nat) := (ink_toDigits n).chars
  have hdigits (n : Nat) : (Nat.toDigits 10 n).all isInkChar := List.all_eq_true.2 (hall n)
  have htake (n k : Nat) : ((Nat.toDigits 10 n).take k).all isInkChar :=
    List.all_eq_true.2 fun c h => hall n c (List.mem_of_mem_take h)
  have hdrop (n k : Nat) : ((Nat.toDigits 10 n).drop k).all isInkChar :=
    List.all_eq_true.2 fun c h => hall n c (List.mem_of_mem_drop h)
  have hzeros (n : Nat) : (Decimal.zeros n).all isInkChar := by simp [Decimal.zeros, hzero]
  have hsigned {sign body : List Char} (hsign : sign.all isInkChar)
      (hbody : body.all isInkChar ∧ ('.' ∈ body ∨ 'e' ∈ body)) : Ink (sign ++ body) := by
    have hchars : ∀ c ∈ sign ++ body, isInkChar c := by
      rw [← List.all_eq_true, List.all_append, hsign, hbody.1]
      rfl
    obtain hmem | hmem := hbody.2
    · exact .of_char (List.mem_append_right sign hmem) (by decide) hchars
    · exact .of_char (List.mem_append_right sign hmem) (by decide) hchars
  unfold Decimal.Style.write
  dsimp only
  rw [String.toList_append, String.toList_ofList]
  refine hsigned (by split <;> decide) ?_
  split_ifs <;> simp only [List.all_append, List.all_cons, List.all_nil, Nat.toList_repr, hdigits, hzeros, htake, hdrop,
    hzero, hpoint, hexp, hminus, hplus, List.mem_append, List.mem_cons, true_or, or_true, Bool.and_self, and_self]

end OperatorScaffold.Yaml

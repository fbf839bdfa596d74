import OperatorScaffold.Proofs.Naming
import OperatorScaffold.Proofs.Text.Split
/-!
The spellings of a name, told by its characters. Snake case is read from behind: what is written in front
of a letter depends on the letters around it, so that the end of a name tells the end of its spelling.
-/

namespace OperatorScaffold.Naming

/-- A word of the name starts with the letter, given its neighbours. -/
def startsWord (before : Option Char) (c : Char) (after : Option Char) : Bool :=
  isUpper c && ((before.any fun p => isLower p || isDigit p) || (before.any isUpper && after.any isLower))

/-- The spelling of a name of letters and digits, with both given backwards; `after` follows the name. -/
def snakeReversed (after : Option Char) : List Char → List Char
  | [] => []
  | c :: cs =>
    let rest := snakeReversed (some c) cs
    c.toLower :: if startsWord cs.head? c after then '_' :: rest else rest

variable {c l : Char} {cs seen ls : List Char} {after : Option Char}

theorem forall_ascii {P : Char → Prop} (h : ∀ n < 128, P (Char.ofNat n)) (hc : c.toNat < 128) : P c :=
  Char.ofNat_toNat c ▸ h c.toNat hc

theorem toNat_lt_of_isAlphanumeric (h : isAlphanumeric c) : c.toNat < 128 := by
  have hle (d : Char) (hd : d.toNat < 128) (h : c ≤ d) : c.toNat < 128 := Nat.lt_of_le_of_lt h hd
  simp only [isAlphanumeric, isDigit, isUpper, isLower, Bool.or_eq_true, Bool.and_eq_true, decide_eq_true_eq] at h
  obtain (⟨-, h⟩ | ⟨-, h⟩) | ⟨-, h⟩ := h
  · exact hle '9' (by decide) h
  · exact hle 'Z' (by decide) h
  · exact hle 'z' (by decide) h

/-- What lower case makes of letters and digits. -/
theorem toLower_spec (h : isAlphanumeric c) : c.toLower ≠ '_' ∧ ¬isWordGap c ∧ (¬isUpper c → c.toLower = c) ∧
    (c = c.toLower ∨ c = c.toLower.toUpper) :=
  forall_ascii (P := fun c => isAlphanumeric c → c.toLower ≠ '_' ∧ ¬isWordGap c ∧ (¬isUpper c → c.toLower = c) ∧
    (c = c.toLower ∨ c = c.toLower.toUpper)) (by decide +kernel) (toNat_lt_of_isAlphanumeric h) h

/-- What upper case makes of the characters of ASCII. -/
theorem toUpper_spec (hc : c.toNat < 128) : c.toUpper.toNat < 128 ∧ (c.toUpper = '_' ↔ c = '_') ∧
    (isAlphanumeric c.toUpper ↔ isAlphanumeric c) ∧ isUpper c.toUpper = (isLower c || isUpper c) :=
  forall_ascii (P := fun c => c.toUpper.toNat < 128 ∧ (c.toUpper = '_' ↔ c = '_') ∧
    (isAlphanumeric c.toUpper ↔ isAlphanumeric c) ∧ isUpper c.toUpper = (isLower c || isUpper c))
    (by decide +kernel) hc

theorem toLower_ne_underscore (h : isAlphanumeric c) : c.toLower ≠ '_' := (toLower_spec h).1

theorem not_isWordGap (h : isAlphanumeric c) : ¬isWordGap c := (toLower_spec h).2.1

theorem toLower_of_not_isUpper (h : isAlphanumeric c) : ¬isUpper c → c.toLower = c := (toLower_spec h).2.2.1

/-- Nothing is written yet, or an underscore last, where nothing is read. -/
theorem parted_snakeReversed (hs : ∀ d ∈ seen, isAlphanumeric d) :
    ((snakeReversed after seen).isEmpty || (snakeReversed after seen).head? == some '_') = seen.isEmpty := by
  cases seen with
  | nil => rfl
  | cons d seen =>
    have hd : d.toLower ≠ '_' := toLower_ne_underscore (hs d List.mem_cons_self)
    simp [snakeReversed, hd]

theorem snakeAfter_cons (hs : ∀ d ∈ seen, isAlphanumeric d) (hc : isAlphanumeric c) :
    snakeAfter (snakeReversed (some c) seen) seen (c :: cs) =
      snakeAfter (snakeReversed cs.head? (c :: seen)) (c :: seen) cs := by
  rw [snakeAfter, if_neg (not_isWordGap hc), parted_snakeReversed hs, snakeReversed]
  dsimp only
  split
  next hu =>
    have hparted : (!seen.isEmpty && ((seen.head?.any fun p => isLower p || isDigit p) ||
        (seen.head?.any isUpper && cs.head?.any isLower))) = startsWord seen.head? c cs.head? := by
      cases seen with
      | nil => simp [startsWord]
      | cons => simp [startsWord, hu]
    rw [hparted]
  next hu =>
    have hstarts : startsWord seen.head? c cs.head? = false := by simp [startsWord, hu]
    rw [hstarts, toLower_of_not_isUpper hc hu]
    rfl

/-- Reading goes on where the letters read are spelled up to the next one. -/
theorem snakeAfter_eq (hs : ∀ d ∈ seen, isAlphanumeric d) (hc : ∀ d ∈ cs, isAlphanumeric d) :
    snakeAfter (snakeReversed cs.head? seen) seen cs = (snakeReversed none (cs.reverse ++ seen)).reverse := by
  induction cs generalizing seen with
  | nil => rfl
  | cons c cs ih =>
    obtain ⟨hc, hcs⟩ := List.forall_mem_cons.1 hc
    rw [List.head?_cons, snakeAfter_cons hs hc, ih (List.forall_mem_cons.2 ⟨hc, hs⟩) hcs]
    simp

theorem toList_snakeCase {s : String} (h : ∀ c ∈ s.toList, isAlphanumeric c) :
    (snakeCase s).toList = (snakeReversed none s.toList.reverse).reverse := by
  have hsnake : snakeAfter (snakeReversed s.toList.head? []) [] s.toList =
      (snakeReversed none (s.toList.reverse ++ [])).reverse := snakeAfter_eq nofun h
  rw [List.append_nil] at hsnake
  rw [snakeCase, String.toList_ofList, ← hsnake]
  rfl

section

open Text

theorem lowerAfter_of_alphanumeric (h : ∀ c ∈ cs, isAlphanumeric c) (before : List Char) :
    lowerAfter before cs = cs.map Char.toLower := by
  induction cs generalizing before with
  | nil => rfl
  | cons c cs ih =>
    obtain ⟨hc, hcs⟩ := List.forall_mem_cons.1 h
    have hascii := toNat_lt_of_isAlphanumeric hc
    have hsigma : c ≠ 'Σ' := by
      rintro rfl
      exact absurd hascii (by decide)
    rw [lowerAfter, if_neg hsigma, charLower, if_pos hascii, ih hcs]
    rfl

theorem toList_toLower_of_alphanumeric {s : String} (h : ∀ c ∈ s.toList, isAlphanumeric c) :
    (toLower s).toList = s.toList.map Char.toLower := by
  rw [toLower, String.toList_ofList, lowerAfter_of_alphanumeric h]

end

/-- What is written besides the letters and digits are underscores. -/
theorem filter_snakeReversed (h : ∀ c ∈ cs, isAlphanumeric c) :
    (snakeReversed after cs).filter (· != '_') = cs.map Char.toLower := by
  induction cs generalizing after with
  | nil => rfl
  | cons c cs ih =>
    obtain ⟨hc, hcs⟩ := List.forall_mem_cons.1 h
    have hletter : (c.toLower != '_') = true := bne_iff_ne.2 (toLower_ne_underscore hc)
    rw [snakeReversed, List.filter_cons, if_pos hletter, List.map_cons]
    split
    · rw [List.filter_cons_of_neg (by decide), ih hcs]
    · rw [ih hcs]

theorem filter_snakeCase {s : String} (h : ∀ c ∈ s.toList, isAlphanumeric c) :
    String.ofList ((snakeCase s).toList.filter (· != '_')) = Text.toLower s := by
  have hreverse : ∀ c ∈ s.toList.reverse, isAlphanumeric c := fun c hc => h c (List.mem_reverse.1 hc)
  rw [← String.toList_inj, String.toList_ofList, toList_toLower_of_alphanumeric h, toList_snakeCase h,
    List.filter_reverse, filter_snakeReversed hreverse, List.map_reverse, List.reverse_reverse]

/-- Names of one spelling differ in their case at most. -/
theorem toLower_eq_of_snakeCase_eq {s t : String} (hs : ∀ c ∈ s.toList, isAlphanumeric c)
    (ht : ∀ c ∈ t.toList, isAlphanumeric c) (h : snakeCase s = snakeCase t) : Text.toLower s = Text.toLower t := by
  rw [← filter_snakeCase hs, ← filter_snakeCase ht, h]

theorem prefix_letter_iff {l' : Char} (hl : l' ≠ '_') : l :: l' :: ls <+: snakeReversed after cs ↔
    ∃ c rest, cs = c :: rest ∧ c.toLower = l ∧ ¬startsWord rest.head? c after ∧
      l' :: ls <+: snakeReversed (some c) rest := by
  cases cs with
  | nil => simp [snakeReversed]
  | cons c rest =>
    rw [snakeReversed, List.cons_prefix_cons]
    constructor
    · rintro ⟨rfl, h⟩
      split at h
      next => exact absurd (List.cons_prefix_cons.1 h).1 hl
      next hstarts => exact ⟨c, rest, rfl, rfl, hstarts, h⟩
    · rintro ⟨_, _, he, rfl, hstarts, h⟩
      obtain ⟨rfl, rfl⟩ := List.cons.inj he
      rw [if_neg hstarts]
      exact ⟨rfl, h⟩

theorem prefix_underscore_iff (hcs : ∀ d ∈ cs, isAlphanumeric d) : [l, '_'] <+: snakeReversed after cs ↔
    ∃ c rest, cs = c :: rest ∧ c.toLower = l ∧ startsWord rest.head? c after := by
  cases cs with
  | nil => simp [snakeReversed]
  | cons c rest =>
    rw [snakeReversed, List.cons_prefix_cons]
    constructor
    · rintro ⟨rfl, h⟩
      split at h
      next hstarts => exact ⟨c, rest, rfl, rfl, hstarts⟩
      next =>
        cases rest with
        | nil => cases List.prefix_nil.1 h
        | cons d rest =>
          have hd : '_' = d.toLower := (List.cons_prefix_cons.1 h).1
          exact absurd hd.symm (toLower_ne_underscore (hcs d (by simp)))
    · rintro ⟨_, _, he, rfl, hstarts⟩
      obtain ⟨rfl, rfl⟩ := List.cons.inj he
      rw [if_pos hstarts]
      exact ⟨rfl, List.cons_prefix_cons.2 ⟨rfl, List.nil_prefix⟩⟩

/-- The word `test` ends a spelling, told backwards: it starts where a word starts, and none starts in it. -/
theorem prefix_tset_iff (hcs : ∀ d ∈ cs, isAlphanumeric d) : "tset_".toList <+: snakeReversed none cs ↔
    ∃ d c b a rest, cs = d :: c :: b :: a :: rest ∧ (d.toLower = 't' ∧ ¬startsWord (some c) d none) ∧
      (c.toLower = 's' ∧ ¬startsWord (some b) c (some d)) ∧ (b.toLower = 'e' ∧ ¬startsWord (some a) b (some c)) ∧
      a.toLower = 't' ∧ startsWord rest.head? a (some b) := by
  have hword : "tset_".toList = ['t', 's', 'e', 't', '_'] := by decide
  rw [hword]
  constructor
  · intro h
    obtain ⟨d, _, rfl, hd, hd', h⟩ := (prefix_letter_iff (by decide)).1 h
    obtain ⟨c, _, rfl, hc, hc', h⟩ := (prefix_letter_iff (by decide)).1 h
    obtain ⟨b, _, rfl, hb, hb', h⟩ := (prefix_letter_iff (by decide)).1 h
    have hrest := fun x hx => hcs x (List.mem_cons_of_mem d (List.mem_cons_of_mem c (List.mem_cons_of_mem b hx)))
    obtain ⟨a, rest, rfl, ha, ha'⟩ := (prefix_underscore_iff hrest).1 h
    exact ⟨d, c, b, a, rest, rfl, ⟨hd, hd'⟩, ⟨hc, hc'⟩, ⟨hb, hb'⟩, ha, ha'⟩
  · rintro ⟨d, c, b, a, rest, rfl, ⟨hd, hd'⟩, ⟨hc, hc'⟩, ⟨hb, hb'⟩, ha, ha'⟩
    have hrest := fun x hx => hcs x (List.mem_cons_of_mem d (List.mem_cons_of_mem c (List.mem_cons_of_mem b hx)))
    refine (prefix_letter_iff (by decide)).2 ⟨d, _, rfl, hd, hd', ?_⟩
    refine (prefix_letter_iff (by decide)).2 ⟨c, _, rfl, hc, hc', ?_⟩
    refine (prefix_letter_iff (by decide)).2 ⟨b, _, rfl, hb, hb', ?_⟩
    exact (prefix_underscore_iff hrest).2 ⟨a, rest, rfl, ha, ha'⟩

theorem eq_or_eq_of_toLower (h : isAlphanumeric c) (hl : c.toLower = l) : c = l ∨ c = l.toUpper := by
  have hspelled := (toLower_spec h).2.2.2
  rwa [hl] at hspelled

/-- A name whose last word is `Test`, behind another, or is spelled `TEST` behind more than a capital. -/
def EndsWithTest (s : String) : Prop :=
  (∃ x ≠ "", s = x ++ "Test") ∨ ∃ x p, (isLower p ∨ isDigit p) ∧ s = x ++ (String.singleton p ++ "TEST")

theorem endsWithTest_iff {s : String} : EndsWithTest s ↔ ∃ rest,
    s.toList.reverse = 't' :: 's' :: 'e' :: 'T' :: rest ∧ rest ≠ [] ∨
      s.toList.reverse = 'T' :: 'S' :: 'E' :: 'T' :: rest ∧ rest.head?.any fun p => isLower p || isDigit p := by
  constructor
  · rintro (⟨x, hne, rfl⟩ | ⟨x, p, hp, rfl⟩)
    · exact ⟨x.toList.reverse, .inl ⟨by simp, by simpa using hne⟩⟩
    · exact ⟨p :: x.toList.reverse, .inr ⟨by simp, by simpa using hp⟩⟩
  · rintro ⟨rest, ⟨he, hne⟩ | ⟨he, hrest⟩⟩
    · have hs : s.toList = rest.reverse ++ "Test".toList := by
        rw [← List.reverse_reverse s.toList, he]
        simp
      exact .inl ⟨.ofList rest.reverse, by simpa using hne, String.toList_injective (by simpa using hs)⟩
    · obtain ⟨p, rest, rfl⟩ : ∃ p ps, rest = p :: ps := List.exists_cons_of_ne_nil (by rintro rfl; cases hrest)
      have hs : s.toList = rest.reverse ++ p :: "TEST".toList := by
        rw [← List.reverse_reverse s.toList, he]
        simp
      exact .inr ⟨.ofList rest.reverse, p, by simpa using hrest, String.toList_injective (by simpa using hs)⟩

theorem startsWord_before_small (p : Char) : startsWord (some p) 'T' (some 'e') = isAlphanumeric p := by
  have hT : isUpper 'T' = true := rfl
  have he : isLower 'e' = true := rfl
  simp [startsWord, isAlphanumeric, hT, he, Bool.or_comm, Bool.or_left_comm, Bool.or_assoc]

theorem startsWord_before_capital (before : Option Char) :
    startsWord before 'T' (some 'E') = before.any fun p => isLower p || isDigit p := by
  have hT : isUpper 'T' = true := rfl
  have hE : isLower 'E' = false := rfl
  simp [startsWord, hT, hE]

/-- The spelling of a kind ends with the word `test` only where its last word is spelled in one of two ways. -/
theorem snakeCase_ends_with_test_iff {s : String} (hs : ∀ c ∈ s.toList, isAlphanumeric c) :
    "_test".toList <:+ (snakeCase s).toList ↔ EndsWithTest s := by
  have hcs : ∀ c ∈ s.toList.reverse, isAlphanumeric c := fun c hc => hs c (List.mem_reverse.1 hc)
  have hword : "_test".toList = "tset_".toList.reverse := by decide
  rw [toList_snakeCase hs, hword, List.reverse_suffix, prefix_tset_iff hcs, endsWithTest_iff]
  constructor
  · rintro ⟨d, c, b, a, rest, he, ⟨hd, hd'⟩, ⟨hc, hc'⟩, ⟨hb, hb'⟩, ha, ha'⟩
    rw [he] at hcs ⊢
    simp only [List.forall_mem_cons] at hcs
    obtain ⟨hdalnum, hcalnum, hbalnum, haalnum, -⟩ := hcs
    refine ⟨rest, ?_⟩
    -- the second letter decides about those behind it, since a change of case would start a word
    obtain rfl | rfl := eq_or_eq_of_toLower haalnum ha
    · cases ha'
    obtain rfl | rfl := eq_or_eq_of_toLower hbalnum hb
    · obtain rfl | rfl := eq_or_eq_of_toLower hcalnum hc
      · obtain rfl | rfl := eq_or_eq_of_toLower hdalnum hd
        · refine .inl ⟨rfl, ?_⟩
          rintro rfl
          cases ha'
        · exact absurd rfl hd'
      · exact absurd rfl hc'
    · obtain rfl | rfl := eq_or_eq_of_toLower hcalnum hc
      · exact absurd rfl hb'
      · obtain rfl | rfl := eq_or_eq_of_toLower hdalnum hd
        · exact absurd rfl hc'
        · exact .inr ⟨rfl, (startsWord_before_capital _).symm.trans ha'⟩
  · rintro ⟨rest, ⟨he, hne⟩ | ⟨he, hrest⟩⟩
    · obtain ⟨p, rest, rfl⟩ := List.exists_cons_of_ne_nil hne
      have hp : isAlphanumeric p := hcs p (by simp [he])
      exact ⟨_, _, _, _, _, he, by decide, by decide, by decide, by decide, (startsWord_before_small p).trans hp⟩
    · exact ⟨_, _, _, _, _, he, by decide, by decide, by decide, by decide, (startsWord_before_capital _).trans hrest⟩

open Text

theorem head?_upperCamelChars (h : ∀ c ∈ cs, c.toNat < 128) :
    (upperCamelChars cs).head? = (cs.find? (!isNameGap ·)).map Char.toUpper := by
  induction cs with
  | nil => rfl
  | cons c cs ih =>
    obtain ⟨hc, hcs⟩ := List.forall_mem_cons.1 h
    have hrest : (upperCamelChars cs).head? = (cs.find? (!isNameGap ·)).map Char.toUpper := ih hcs
    unfold upperCamelChars at hrest ⊢
    rw [splitWhere]
    split
    next hgap => simpa [hgap, upperFirst] using hrest
    next hgap =>
      have hupper : charUpper c = [c.toUpper] := if_pos hc
      split <;> simp [hgap, upperFirst, hupper]

section

variable {P : Char → Prop} (hP : ∀ c : Char, c.toNat < 128 → (P c.toUpper ↔ P c))

include hP

theorem forall_mem_upperFirst_iff (h : ∀ c ∈ cs, c.toNat < 128) :
    (∀ x ∈ upperFirst cs, P x) ↔ ∀ c ∈ cs, P c := by
  cases cs with
  | nil => rfl
  | cons c cs =>
    obtain ⟨hc, -⟩ := List.forall_mem_cons.1 h
    have hupper : charUpper c = [c.toUpper] := if_pos hc
    simp [upperFirst, hupper, hP c hc]

/-- What is no matter of case is known of the spelling if it is known of what stands in no gap. -/
theorem forall_mem_upperCamelChars_iff (h : ∀ c ∈ cs, c.toNat < 128) :
    (∀ x ∈ upperCamelChars cs, P x) ↔ ∀ c ∈ cs, isNameGap c ∨ P c := by
  have hascii : ∀ l ∈ splitWhere isNameGap cs, ∀ c ∈ l, c.toNat < 128 :=
    forall_mem_splitWhere.2 fun c hc => .inr (h c hc)
  calc (∀ x ∈ upperCamelChars cs, P x)
      ↔ ∀ l ∈ splitWhere isNameGap cs, ∀ x ∈ upperFirst l, P x := by
        simp only [upperCamelChars, List.mem_flatMap]
        exact ⟨fun h l hl x hx => h x ⟨l, hl, hx⟩, fun h x ⟨l, hl, hx⟩ => h l hl x hx⟩
    _ ↔ ∀ l ∈ splitWhere isNameGap cs, ∀ c ∈ l, P c :=
        forall₂_congr fun l hl => forall_mem_upperFirst_iff hP (hascii l hl)
    _ ↔ ∀ c ∈ cs, isNameGap c ∨ P c := forall_mem_splitWhere

end

/-- A spelling in ASCII has no underscore. -/
theorem ascii_of_mem_upperCamelChars (h : ∀ c ∈ cs, c.toNat < 128) :
    ∀ x ∈ upperCamelChars cs, x.toNat < 128 ∧ x ≠ '_' := by
  have hcase (c : Char) (hc : c.toNat < 128) : (c.toUpper.toNat < 128 ∧ c.toUpper ≠ '_') ↔ c.toNat < 128 ∧ c ≠ '_' := by
    obtain ⟨hascii, hne, -⟩ := toUpper_spec hc
    exact and_congr (iff_of_true hascii hc) (not_congr hne)
  refine (forall_mem_upperCamelChars_iff hcase h).2 fun c hc => ?_
  by_cases hgap : c = '_'
  · exact .inl (by rw [hgap]; decide)
  · exact .inr ⟨h c hc, hgap⟩

/-- The first character that stands in no gap is a letter, and all others are letters and digits. -/
def Spellable (s : String) : Prop :=
  (∃ c ∈ s.toList.find? (!isNameGap ·), isLower c ∨ isUpper c) ∧ ∀ c ∈ s.toList, isNameGap c ∨ isAlphanumeric c

theorem upperCamel_upperCamel_iff {s : String} (h : ∀ c ∈ s.toList, c.toNat < 128) :
    UpperCamel (upperCamel s) ↔ Spellable s := by
  have hhead : (upperCamelChars s.toList).head?.any isUpper ↔
      ∃ c ∈ s.toList.find? (!isNameGap ·), isLower c ∨ isUpper c := by
    rw [head?_upperCamelChars h]
    cases hfind : s.toList.find? (!isNameGap ·) with
    | none => simp
    | some c =>
      simp [(toUpper_spec (h c (List.mem_of_find?_eq_some hfind))).2.2.2]
  rw [← isUpperCamel_iff, isUpperCamel, upperCamel, String.toList_ofList, Bool.and_eq_true, hhead,
    List.all_eq_true, forall_mem_upperCamelChars_iff (fun _ hc => (toUpper_spec hc).2.2.1) h, Spellable]

end OperatorScaffold.Naming

import OperatorScaffold.Naming
import OperatorScaffold.Proofs.Text.Case
/-!
The shapes of identifiers, each by what it consists of.
-/

namespace OperatorScaffold.Naming

def UpperCamel (s : String) : Prop :=
  ∃ c cs, s.toList = c :: cs ∧ isUpper c ∧ ∀ d ∈ cs, isAlphanumeric d

theorem isAlphanumeric_of_isUpper {c : Char} (h : isUpper c) : isAlphanumeric c := by
  simp [isAlphanumeric, h]

theorem isUpperCamel_iff {s : String} : isUpperCamel s ↔ UpperCamel s := by
  unfold isUpperCamel UpperCamel
  cases s.toList with
  | nil => simp
  | cons c cs =>
    simp only [List.head?_cons, Option.any_some, List.all_cons, Bool.and_eq_true, List.all_eq_true,
      List.cons.injEq]
    constructor
    · rintro ⟨hc, -, hcs⟩
      exact ⟨c, cs, ⟨rfl, rfl⟩, hc, hcs⟩
    · rintro ⟨_, _, ⟨rfl, rfl⟩, hc, hcs⟩
      exact ⟨hc, isAlphanumeric_of_isUpper hc, hcs⟩

/-- Digits that count something: the first is not zero. -/
def Count (n : List Char) : Prop := ∃ c cs, n = c :: cs ∧ c ≠ '0' ∧ ∀ d ∈ c :: cs, isDigit d

theorem isCount_iff {n : List Char} : isCount n ↔ Count n := by
  unfold Count
  cases n with
  | nil => simp [isCount]
  | cons c cs => simp [isCount, and_assoc]

theorem Count.digits {n : List Char} (h : Count n) : ∀ d ∈ n, isDigit d := by
  obtain ⟨c, cs, rfl, -, h⟩ := h
  exact h

/-- What may follow the major number. -/
def Stage (rest : List Char) : Prop :=
  rest = [] ∨ ∃ stage ∈ ["alpha", "beta"], ∃ minor, Count minor ∧ rest = stage.toList ++ minor

def KubeVersion (s : String) : Prop :=
  ∃ major rest, Count major ∧ Stage rest ∧ s.toList = 'v' :: (major ++ rest)

theorem Stage.head_not_digit {rest : List Char} (h : Stage rest) : ∀ c ∈ rest.head?, ¬isDigit c := by
  obtain rfl | ⟨stage, hs, minor, -, rfl⟩ := h
  · simp
  · simp only [List.mem_cons, List.not_mem_nil, or_false] at hs
    obtain rfl | rfl := hs <;> simp <;> decide

theorem span_digits {ds rest : List Char} (hd : ∀ d ∈ ds, isDigit d)
    (hr : ∀ c ∈ rest.head?, ¬isDigit c) :
    (ds ++ rest).takeWhile isDigit = ds ∧ (ds ++ rest).dropWhile isDigit = rest := by
  rw [List.takeWhile_append_of_pos hd, List.dropWhile_append_of_pos hd]
  cases rest with
  | nil => simp
  | cons c cs => simp [show isDigit c = false by simpa using hr c rfl]

theorem isKubeVersion_iff {s : String} : isKubeVersion s ↔ KubeVersion s := by
  unfold isKubeVersion
  constructor
  · intro h
    split at h
    next cs hs =>
      obtain ⟨hm, hr⟩ := (Bool.and_eq_true _ _).mp h
      refine ⟨cs.takeWhile isDigit, cs.dropWhile isDigit, isCount_iff.1 hm, ?_, ?_⟩
      · split at hr
        next e => exact .inl e
        next minor e => exact .inr ⟨"alpha", by simp, minor, isCount_iff.1 hr, e⟩
        next minor e => exact .inr ⟨"beta", by simp, minor, isCount_iff.1 hr, e⟩
        next => cases hr
      · rw [List.takeWhile_append_dropWhile, hs]
    next => cases h
  · rintro ⟨major, rest, hm, hr, h⟩
    have ⟨ht, hd⟩ := span_digits hm.digits hr.head_not_digit
    simp only [h, ht, hd, isCount_iff.2 hm, Bool.true_and]
    obtain rfl | ⟨stage, hs, minor, hn, rfl⟩ := hr
    · rfl
    · simp only [List.mem_cons, List.not_mem_nil, or_false] at hs
      obtain rfl | rfl := hs
      · exact isCount_iff.2 hn
      · exact isCount_iff.2 hn

theorem slash_not_mem_snakeAfter {done seen cs : List Char} (hd : '/' ∉ done) (hc : '/' ∉ cs) :
    '/' ∉ snakeAfter done seen cs := by
  have parted (b : Prop) [Decidable b] {done : List Char} (hd : '/' ∉ done) :
      '/' ∉ (if b then done else '_' :: done) ∧ '/' ∉ (if b then '_' :: done else done) := by
    constructor <;> split <;> simp [hd]
  fun_induction snakeAfter done seen cs with
  | case1 => simpa using hd
  | case2 done seen c cs _ _ ih =>
    exact ih (parted _ hd).1 fun h => hc (List.mem_cons_of_mem c h)
  | case3 done seen c cs _ _ _ _ _ done' ih =>
    refine ih ?_ fun h => hc (List.mem_cons_of_mem c h)
    have hlow : c.toLower ≠ '/' := Text.toLower_ne (by decide) fun e => hc (e ▸ List.mem_cons_self)
    exact List.not_mem_cons_of_ne_of_not_mem hlow.symm (parted _ hd).2
  | case4 done seen c cs _ _ ih =>
    have hne : '/' ≠ c := fun e => hc (e ▸ List.mem_cons_self)
    exact ih (List.not_mem_cons_of_ne_of_not_mem hne hd) fun h => hc (List.mem_cons_of_mem c h)

theorem slash_not_mem_snakeCase {s : String} (h : '/' ∉ s.toList) : '/' ∉ (snakeCase s).toList := by
  rw [snakeCase, String.toList_ofList]
  exact slash_not_mem_snakeAfter (by simp) h

theorem UpperCamel.alphanumeric {s : String} (h : UpperCamel s) : ∀ c ∈ s.toList, isAlphanumeric c := by
  obtain ⟨c, cs, e, hc, hcs⟩ := h
  rw [e]
  exact List.forall_mem_cons.2 ⟨isAlphanumeric_of_isUpper hc, hcs⟩

theorem UpperCamel.append {s t : String} (hs : UpperCamel s) (ht : UpperCamel t) : UpperCamel (s ++ t) := by
  obtain ⟨c, cs, e, hc, hcs⟩ := hs
  refine ⟨c, cs ++ t.toList, by rw [String.toList_append, e]; rfl, hc, ?_⟩
  exact List.forall_mem_append.2 ⟨hcs, ht.alphanumeric⟩

theorem KubeVersion.alphanumeric {s : String} (h : KubeVersion s) : ∀ c ∈ s.toList, isAlphanumeric c := by
  obtain ⟨major, rest, hm, hr, e⟩ := h
  have digit {n : List Char} (hn : Count n) : ∀ c ∈ n, isAlphanumeric c := fun c hc => by
    simp [isAlphanumeric, hn.digits c hc]
  rw [e]
  refine List.forall_mem_cons.2 ⟨by decide, List.forall_mem_append.2 ⟨digit hm, ?_⟩⟩
  obtain rfl | ⟨stage, hs, minor, hn, rfl⟩ := hr
  · simp
  · have hstage : stage.toList.all isAlphanumeric := by
      simp only [List.mem_cons, List.not_mem_nil, or_false] at hs
      obtain rfl | rfl := hs <;> decide
    exact List.forall_mem_append.2 ⟨List.all_eq_true.1 hstage, digit hn⟩

end OperatorScaffold.Naming

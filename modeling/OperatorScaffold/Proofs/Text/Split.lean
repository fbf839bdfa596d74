import OperatorScaffold.Text.Lines
/-!
Splitting a text at the characters of a class, and what it does to a concatenation.
-/

namespace OperatorScaffold.Text

variable {p : Char → Bool}

theorem splitWhere_append {c : Char} (hc : p c) (xs ys : List Char) :
    splitWhere p (xs ++ c :: ys) = splitWhere p xs ++ splitWhere p ys := by
  induction xs with
  | nil => simp [splitWhere, hc]
  | cons x xs ih =>
    simp only [List.cons_append, splitWhere, ih]
    split
    · rfl
    · cases h : splitWhere p xs with
      | nil => exact absurd h (splitWhere_ne_nil p xs)
      | cons l ls => rfl

theorem splitWhere_of_forall {xs : List Char} (h : ∀ c ∈ xs, ¬p c) : splitWhere p xs = [xs] := by
  induction xs with
  | nil => rfl
  | cons x xs ih =>
    have ⟨hx, hxs⟩ := List.forall_mem_cons.1 h
    simp [splitWhere, hx, ih hxs]

/-- The pieces together are the text without the characters that it is split at. -/
theorem flatten_splitWhere (xs : List Char) : (splitWhere p xs).flatten = xs.filter (!p ·) := by
  induction xs with
  | nil => rfl
  | cons x xs ih =>
    rw [splitWhere]
    split
    next hx => simpa [hx] using ih
    next hx =>
      split
      next h => exact absurd h (splitWhere_ne_nil p xs)
      next l ls h => simpa [hx, h] using ih

theorem forall_mem_splitWhere {P : Char → Prop} {xs : List Char} :
    (∀ l ∈ splitWhere p xs, ∀ c ∈ l, P c) ↔ ∀ c ∈ xs, p c ∨ P c := by
  rw [← List.forall_mem_flatten, flatten_splitWhere]
  simp only [List.mem_filter, and_imp]
  refine forall₂_congr fun c _ => ?_
  cases p c <;> simp

/-- What stands behind the first place of a character. -/
theorem eq_of_behind {c : Char} {xs ys xs' ys' : List Char} (hx : c ∉ xs) (hx' : c ∉ xs')
    (h : xs ++ c :: ys = xs' ++ c :: ys') : ys = ys' := by
  have drop {xs ys : List Char} (hx : c ∉ xs) : (xs ++ c :: ys).dropWhile (· != c) = c :: ys := by
    rw [List.dropWhile_append_of_pos]
    · simp
    · intro d hd
      rw [bne_iff_ne]
      rintro rfl
      exact hx hd
  have e := congrArg (List.dropWhile (· != c)) h
  rw [drop hx, drop hx'] at e
  exact (List.cons.inj e).2

/-- The first place of a character parts a text in one way. -/
theorem eq_of_parted {c : Char} {xs ys xs' ys' : List Char} (hx : c ∉ xs) (hx' : c ∉ xs')
    (h : xs ++ c :: ys = xs' ++ c :: ys') : xs = xs' ∧ ys = ys' := by
  obtain rfl := eq_of_behind hx hx' h
  exact ⟨List.append_cancel_right h, rfl⟩

end OperatorScaffold.Text

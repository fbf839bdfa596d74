import Mathlib.Data.List.TakeWhile
import OperatorScaffold.Proofs.Text.Chunks
import OperatorScaffold.Proofs.Text.OneLine
import OperatorScaffold.Text.Blank
/-!
The lines of a text, with and without their line ends.
-/

namespace OperatorScaffold.Text

variable {s t : String} {cs l : List Char}

/-- Every text is a last line, or a line in front of a text. -/
theorem lines_induction {P : List Char → Prop} (last : ∀ cs, '\n' ∉ cs → P cs)
    (line : ∀ l cs, '\n' ∉ l → P cs → P (l ++ '\n' :: cs)) (cs : List Char) : P cs := by
  induction h : cs.length using Nat.strongRecOn generalizing cs with
  | ind n ih =>
    by_cases hc : '\n' ∈ cs
    · obtain ⟨l, more, rfl, hl⟩ := List.eq_append_cons_of_mem hc
      exact line l more hl (ih more.length (by simp [← h]; omega) more rfl)
    · exact last cs hc

theorem chunks_append_feed (l m : List Char) : chunks (l ++ '\n' :: m) = chunks (l ++ ['\n']) ++ chunks m := by
  induction l using lines_induction with
  | last l h => rw [chunks_line_append h, chunks_line_append h]; rfl
  | line l more h ih => simp only [List.append_assoc, List.cons_append, chunks_line_append h, ih]

theorem mem_chunks (h : l ∈ chunks cs) : '\n' ∉ l ∨ ∃ m, '\n' ∉ m ∧ l = m ++ ['\n'] := by
  induction cs using lines_induction with
  | last cs hcs =>
    cases cs with
    | nil => cases h
    | cons c cs =>
      rw [chunks_of_no_feed (List.cons_ne_nil _ _) hcs, List.mem_singleton] at h
      exact .inl (h ▸ hcs)
  | line m cs hm ih =>
    rw [chunks_line_append hm] at h
    obtain rfl | h := List.mem_cons.1 h
    · exact .inr ⟨m, hm, rfl⟩
    · exact ih h

theorem chomp_of_no_feed (h : '\n' ∉ l) : chomp l = l := by
  unfold chomp
  split
  next he => exact absurd (List.mem_reverse.1 (he ▸ List.mem_cons_self)) h
  next he => exact absurd (List.mem_reverse.1 (he ▸ List.mem_cons_self)) h
  next => rfl

theorem chomp_concat_feed (m : List Char) :
    chomp (m ++ ['\n']) = m ∨ m = chomp (m ++ ['\n']) ++ ['\r'] := by
  unfold chomp
  rw [List.reverse_append]
  split
  next r h =>
    obtain ⟨-, h⟩ := List.cons.inj h
    exact .inr (by rw [← List.reverse_reverse m]; simpa using h)
  next r _ h =>
    obtain ⟨-, h⟩ := List.cons.inj h
    exact .inl (by rw [← h]; simp)
  next h => exact absurd rfl (h _)

theorem oneLine_of_mem_lines (h : t ∈ Text.lines s) : OneLine t := by
  obtain ⟨l, hl, rfl⟩ := List.mem_map.1 h
  rw [oneLine_ofList]
  obtain hl | ⟨m, hm, rfl⟩ := mem_chunks hl
  · rwa [chomp_of_no_feed hl]
  · obtain h | h := chomp_concat_feed m
    · rwa [h]
    · exact fun hc => hm (h ▸ List.mem_append_left _ hc)

theorem exists_toList_dropEnd (p : Char → Bool) (s : String) :
    ∃ bs, (∀ c ∈ bs, p c) ∧ s.toList = (dropEnd p s).toList ++ bs := by
  refine ⟨(s.toList.reverse.takeWhile p).reverse, fun c hc => ?_, ?_⟩
  · exact List.mem_takeWhile_imp (List.mem_reverse.1 hc)
  · rw [dropEnd, String.toList_ofList, ← List.reverse_append, List.takeWhile_append_dropWhile,
      List.reverse_reverse]

theorem dropEnd_ne_empty {p : Char → Bool} {c : Char} (hc : c ∈ s.toList) (hp : ¬p c) : dropEnd p s ≠ "" := by
  intro he
  obtain ⟨bs, hbs, hs⟩ := exists_toList_dropEnd p s
  rw [hs, he] at hc
  exact hp (hbs c hc)

theorem dropEnd_append {p : Char → Bool} (s t : String) :
    dropEnd p (s ++ t) = if dropEnd p t = "" then dropEnd p s else s ++ dropEnd p t := by
  have hempty : dropEnd p t = "" ↔ t.toList.reverse.dropWhile p = [] := by
    rw [dropEnd, ← String.toList_eq_nil_iff, String.toList_ofList, List.reverse_eq_nil_iff]
  rw [dropEnd, String.toList_append, List.reverse_append, List.dropWhile_append]
  split
  next h =>
    rw [if_pos (hempty.2 (List.isEmpty_iff.1 h))]
    rfl
  next h =>
    rw [if_neg fun he => h (List.isEmpty_iff.2 (hempty.1 he)), List.reverse_append, List.reverse_reverse,
      String.ofList_append, String.ofList_toList]
    rfl

end OperatorScaffold.Text

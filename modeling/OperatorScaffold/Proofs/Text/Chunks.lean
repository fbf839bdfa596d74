import OperatorScaffold.Text.Lines
/-!
The lines of a text. Every piece but the last ends with its one line feed, and pieces of that shape
are found again in the text that they make up.
-/

namespace OperatorScaffold.Text

/-- A text that ends with its only line feed. -/
def IsLine (l : String) : Prop := ∃ cs : List Char, '\n' ∉ cs ∧ l.toList = cs ++ ['\n']

/-- The pieces of a text; only the last may lack its line feed. -/
inductive Chunked : List String → Prop
  | nil : Chunked []
  | last {l : String} : l.toList ≠ [] → '\n' ∉ l.toList → Chunked [l]
  | line {l : String} {ls : List String} : IsLine l → Chunked ls → Chunked (l :: ls)

theorem chunks_of_no_feed {cs : List Char} (hne : cs ≠ []) (h : '\n' ∉ cs) : chunks cs = [cs] := by
  induction cs with
  | nil => exact absurd rfl hne
  | cons c cs ih =>
    have hc : c ≠ '\n' := fun e => h (by simp [e])
    cases cs with
    | nil => simp [chunks, hc]
    | cons d ds =>
      have hds : '\n' ∉ d :: ds := fun m => h (List.mem_cons_of_mem _ m)
      rw [chunks, if_neg hc, ih (by simp) hds]

theorem chunks_line_append {cs : List Char} (h : '\n' ∉ cs) (rest : List Char) :
    chunks (cs ++ '\n' :: rest) = (cs ++ ['\n']) :: chunks rest := by
  induction cs with
  | nil => simp [chunks]
  | cons c cs ih =>
    have hc : c ≠ '\n' := fun e => h (by simp [e])
    have hcs : '\n' ∉ cs := fun m => h (List.mem_cons_of_mem _ m)
    simp [chunks, hc, ih hcs]

/-- Pieces are found again in their text. -/
theorem Chunked.chunks_join {ls : List String} (h : Chunked ls) :
    (chunks (String.join ls).toList).map String.ofList = ls := by
  induction h with
  | nil => simp [chunks]
  | last hne hl => simp [chunks_of_no_feed hne hl]
  | line hl _ ih =>
    obtain ⟨cs, hcs, hl⟩ := hl
    have e : cs ++ ['\n'] = _ := hl.symm
    simp only [String.toList_join, List.flatMap_cons, hl, List.append_assoc, List.singleton_append,
      chunks_line_append hcs, List.map_cons] at ih ⊢
    rw [ih, e, String.ofList_toList]

theorem Chunked.consChar {c : Char} {l : List Char} {ls : List String} (hc : c ≠ '\n')
    (h : Chunked (.ofList l :: ls)) : Chunked (.ofList (c :: l) :: ls) := by
  cases h with
  | last hne hl => exact .last (by simp) (by simpa [Ne.symm hc] using hl)
  | line hl hls =>
    obtain ⟨ds, hds, e⟩ := hl
    exact .line ⟨c :: ds, by simp [Ne.symm hc, hds], by simpa using e⟩ hls

theorem Chunked.of_chunks (s : List Char) : Chunked ((chunks s).map String.ofList) := by
  induction s with
  | nil => exact .nil
  | cons c cs ih =>
    unfold chunks
    by_cases hc : c = '\n'
    · rw [if_pos hc]
      exact .line ⟨[], by simp, by simp [hc]⟩ ih
    · rw [if_neg hc]
      cases h : chunks cs with
      | nil => exact .last (by simp) (by simpa using Ne.symm hc)
      | cons l ls => exact .consChar hc (by simpa [h] using ih)

theorem Chunked.tail {l : String} {ls : List String} (h : Chunked (l :: ls)) : Chunked ls := by
  cases h with
  | last => exact .nil
  | line _ h => exact h

/-- With something behind it, a piece is a line. -/
theorem Chunked.isLine_of_ne_nil {l : String} {ls : List String} (h : Chunked (l :: ls))
    (hne : ls ≠ []) : IsLine l := by
  cases h with
  | last => exact absurd rfl hne
  | line h _ => exact h

theorem chunked_append_iff {xs ys : List String} (hne : ys ≠ []) :
    Chunked (xs ++ ys) ↔ (∀ x ∈ xs, IsLine x) ∧ Chunked ys := by
  induction xs with
  | nil => simp
  | cons x xs ih =>
    constructor
    · intro h
      have ⟨hxs, hys⟩ := ih.1 h.tail
      exact ⟨List.forall_mem_cons.2 ⟨h.isLine_of_ne_nil (by simp [hne]), hxs⟩, hys⟩
    · rintro ⟨h, hys⟩
      have ⟨hx, hxs⟩ := List.forall_mem_cons.1 h
      exact .line hx (ih.2 ⟨hxs, hys⟩)

theorem Chunked.append {xs ys : List String} (hxs : ∀ x ∈ xs, IsLine x) (hys : Chunked ys) :
    Chunked (xs ++ ys) := by
  induction xs with
  | nil => exact hys
  | cons x xs ih =>
    have ⟨hx, hxs⟩ := List.forall_mem_cons.1 hxs
    exact .line hx (ih hxs)

/-- What stands behind some pieces can be exchanged, if it is not put where nothing was. -/
theorem Chunked.append_congr {xs ys zs : List String} (h : Chunked (xs ++ ys))
    (hnil : ys = [] → zs = []) (hzs : Chunked ys → Chunked zs) : Chunked (xs ++ zs) := by
  by_cases hy : ys = []
  · rw [hnil hy]
    simpa [hy] using h
  · have ⟨hxs, hys⟩ := (chunked_append_iff hy).1 h
    exact .append hxs (hzs hys)

/-- A line has its line feed already. -/
@[simp] theorem closeLine_of_isLine {l : String} (h : IsLine l) : closeLine l = l := by
  obtain ⟨cs, -, e⟩ := h
  simp [closeLine, e]

end OperatorScaffold.Text

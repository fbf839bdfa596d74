import OperatorScaffold.Proofs.Marker.Account
import OperatorScaffold.Proofs.Schema.Quiet
import OperatorScaffold.Template.Registry
/-!
The lines that templates put together, and what becomes of them in a rendering.
-/

namespace OperatorScaffold

open Marker Text

namespace Template

/-- Every built-in template puts its lines together. -/
theorem render_builtin (k : ArtifactKind) (c : Context) :
    Registry.builtin.render k.template c = .ok (withOneNewline (joinLines (builtinLines k c))) := by
  cases k <;> rfl

variable {ls ls' : List String} {s : String} {cs : List Char} {c : Char}

theorem joinLines_append (h : ls ≠ []) (h' : ls' ≠ []) : joinLines (ls ++ ls') = joinLines ls ++ "\n" ++ joinLines ls' := by
  rw [joinLines, String.intercalate_append_of_ne_nil h h']
  rfl

theorem mem_joinLines_cons {l : String} {x : Char} (h : x ∈ l.toList) (ls : List String) :
    x ∈ (joinLines (l :: ls)).toList := by
  cases ls with
  | nil => simpa [joinLines] using h
  | cons l' ls => simp [joinLines, String.intercalate_cons_cons, h]

theorem joinLines_append_feed (hne : ls ≠ []) :
    joinLines ls ++ "\n" = String.join (ls.map (· ++ "\n")) := by
  induction ls with
  | nil => exact absurd rfl hne
  | cons l ls ih =>
    cases ls with
    | nil => simp [joinLines]
    | cons m ms =>
      have := ih (by simp)
      simp only [joinLines, String.intercalate_cons_cons, List.map_cons, String.join_cons,
        String.append_assoc] at this ⊢
      rw [this]

theorem withOneNewline_eq (h : s.toList = cs ++ [c]) (hc : ¬isBlank c) : withOneNewline s = s ++ "\n" := by
  have hend : ¬(c == '\n' || c == '\r' || c == ' ' || c == '\t') = true := by
    simp only [Bool.or_eq_true, beq_iff_eq]
    rintro (((rfl | rfl) | rfl) | rfl) <;> exact hc (by decide)
  have hdrop : s.toList.reverse.dropWhile (fun c => c == '\n' || c == '\r' || c == ' ' || c == '\t') =
      s.toList.reverse := by
    rw [h, List.reverse_append]
    exact List.dropWhile_cons_of_neg hend
  change String.ofList (s.toList.reverse.dropWhile fun c =>
    c == '\n' || c == '\r' || c == ' ' || c == '\t').reverse ++ "\n" = _
  rw [hdrop, List.reverse_reverse, String.ofList_toList]

theorem exists_toList_joinLines (ls : List String) (l : String) :
    ∃ cs, (joinLines (ls ++ [l])).toList = cs ++ l.toList := by
  by_cases hne : ls = []
  · exact ⟨[], by simp [hne, joinLines]⟩
  · refine ⟨(joinLines ls ++ "\n").toList, ?_⟩
    rw [joinLines, String.intercalate_append_of_ne_nil hne (List.cons_ne_nil _ _),
      String.intercalate_singleton, String.toList_append]
    rfl

theorem rendered_of_closed (h : ls.getLast?.any fun l => l.toList.getLast?.any fun c => !isBlank c) :
    withOneNewline (joinLines ls) = String.join (ls.map (· ++ "\n")) := by
  obtain ⟨l, hl, hc⟩ := (Option.any_eq_true _ _).1 h
  obtain ⟨c, hc, hblank⟩ := (Option.any_eq_true _ _).1 hc
  obtain ⟨init, rfl⟩ := List.getLast?_eq_some_iff.1 hl
  obtain ⟨ds, hds⟩ := List.getLast?_eq_some_iff.1 hc
  obtain ⟨cs, hcs⟩ := exists_toList_joinLines init l
  rw [hds, ← List.append_assoc] at hcs
  rw [withOneNewline_eq hcs (by simpa using hblank), joinLines_append_feed (by simp)]

theorem isBlank_of_isEndBlank : ∀ c, isEndBlank c → isBlank c := by
  intro c hc
  simp only [isEndBlank, Bool.or_eq_true, beq_iff_eq] at hc
  obtain ((rfl | rfl) | rfl) | rfl := hc <;> decide

theorem joinLines_eq (ls : List String) : joinLines ls = Schema.joinLines ls := by
  induction ls with
  | nil => rfl
  | cons l ls ih =>
    cases ls with
    | nil => exact String.intercalate_singleton
    | cons m ms =>
      rw [Schema.joinLines, ← ih]
      · exact String.intercalate_cons_cons
      · exact List.cons_ne_nil m ms

/-- Lines with no marker line among them are read without a region. -/
theorem parse_unmarkedLines (h : ∀ l ∈ ls, Unmarked l.toList) :
    ∃ d, Document.parse (withOneNewline (joinLines ls)) = .ok d ∧ d.regions = [] := by
  have hjoin : Unmarked (joinLines ls).toList := by
    rw [joinLines_eq]
    exact Schema.unmarked_joinLines.2 h
  exact (hjoin.dropEnd isBlank_of_isEndBlank).parse

end Template

end OperatorScaffold

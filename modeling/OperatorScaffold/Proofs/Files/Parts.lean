import OperatorScaffold.Proofs.Files.Leading
/-!
The parts of a path: its names but for the dots that go nowhere. Paths with other places have other
parts.
-/

namespace OperatorScaffold

namespace Path

variable {p q : Path}

def isDot (n : String) : Bool := n = "."

theorem map_ofList_filter_isIdle (ps : List (List Char)) :
    (ps.filter (!isIdle ·)).map String.ofList = (namesOf ps).filter (!isDot ·) := by
  have hdot (x : List Char) : isDot (.ofList x) = (x == ['.']) := by
    rw [isDot, Bool.eq_iff_iff, decide_eq_true_iff, beq_iff_eq]
    exact ⟨fun h => by simpa using congrArg String.toList h, fun h => by rw [h]⟩
  rw [namesOf, List.filter_map, List.filter_filter]
  refine congrArg _ (List.filter_congr fun x _ => ?_)
  rw [Function.comp_apply, hdot, isIdle, Bool.not_or, Bool.and_comm]

/-- A dot stays in front of a relative path and nowhere else. -/
theorem parts_eq : p.parts =
    if p.isAbsolute then "/" :: p.names.filter (!isDot ·)
    else p.names.take 1 ++ (p.names.drop 1).filter (!isDot ·) := by
  obtain ⟨first, rest, hp⟩ := List.exists_cons_of_ne_nil (pieces_ne_nil (p := p))
  have habs : p.isAbsolute ↔ rest ≠ [] ∧ first = [] := by
    rw [isAbsolute_iff, hp]
    exact ⟨fun ⟨rest', h, e⟩ => by cases e; exact ⟨h, rfl⟩, fun ⟨h, e⟩ => ⟨rest, h, by rw [e]⟩⟩
  rw [parts, names_eq, hp]
  simp only [map_ofList_filter_isIdle]
  by_cases ha : p.isAbsolute
  · obtain ⟨-, rfl⟩ := habs.1 ha
    rw [if_pos ha, if_pos ha]
    rfl
  · rw [if_neg ha, if_neg ha]
    by_cases hf : first = []
    · subst hf
      obtain rfl : rest = [] := Decidable.byContradiction fun h => ha (habs.2 ⟨h, rfl⟩)
      rfl
    · rw [if_neg (by simpa using hf), namesOf_cons hf]
      rfl

theorem parts_of_relative (h : ¬p.isAbsolute) (hd : p.names.head? ≠ some ".") :
    p.parts = p.names.filter (!isDot ·) := by
  rw [parts_eq, if_neg h]
  cases hn : p.names with
  | nil => rfl
  | cons n ns =>
    have hdot : isDot n = false := by
      rw [isDot, decide_eq_false_iff_not]
      rintro rfl
      exact hd (by rw [hn]; rfl)
    rw [List.filter_cons_of_pos (by rw [hdot]; rfl)]
    rfl

/-- The parts of a path that is joined to another one come behind the parts of that one. -/
theorem parts_join (h : ¬q.isAbsolute) (hd : q.names.head? ≠ some ".") :
    (p.join q).parts = p.parts ++ q.parts := by
  rw [parts_of_relative h hd, parts_eq, parts_eq, isAbsolute_join h, names_join h]
  by_cases ha : p.isAbsolute
  · rw [if_pos ha, if_pos ha, List.filter_append, List.cons_append]
  · rw [if_neg ha, if_neg ha]
    cases hn : p.names with
    | nil =>
      rw [List.nil_append, ← parts_of_relative h hd, parts_eq, if_neg h]
      rfl
    | cons n ns => simp

end Path

namespace Workspace

open FileTree

variable {a : Path} {dirs : List String} {n : String}

theorem land?_filter (here : Place) (ns : List String) :
    land? here (ns.filter (!Path.isDot ·)) = land? here ns := by
  induction ns generalizing here with
  | nil => rfl
  | cons n ns ih =>
    by_cases hn : n = "."
    · rw [List.filter_cons_of_neg (by simp [Path.isDot, hn]), land?, if_pos hn, ih]
    · rw [List.filter_cons_of_pos (by simp [Path.isDot, hn]), land?, land?, if_neg hn, if_neg hn, ih, ih]

theorem Ends.parts (h : Ends a dirs n) (hd : dirs.head? ≠ some ".") :
    a.parts = dirs.filter (!Path.isDot ·) ++ [n] := by
  rw [Path.parts_of_relative h.relative, h.names, List.filter_append,
    List.filter_cons_of_pos (by simp [Path.isDot, h.isName.1])]
  · rfl
  · rw [h.names]
    cases dirs with
    | nil => simpa using h.isName.1
    | cons d dirs => exact hd

theorem land?_concat {here : Place} (hn : n ≠ "." ∧ n ≠ "..") (ns : List String) :
    land? here (ns ++ [n]) = (land? here ns).map (· ++ [n]) := by
  induction ns generalizing here with
  | nil => simp [land?, hn.1, hn.2]
  | cons m ns ih =>
    rw [List.cons_append, land?, land?]
    split
    · exact ih
    · split
      · split
        · rfl
        · exact ih
      · exact ih

/-- The parts of a path tell the place it leads to. -/
theorem Ends.land_parts {l : Place} (h : Ends a dirs n) (hd : dirs.head? ≠ some ".")
    (hl : land? [] dirs = some l) : land? [] a.parts = some (l ++ [n]) := by
  rw [h.parts hd, land?_concat h.isName, land?_filter, hl]
  rfl

end Workspace

end OperatorScaffold

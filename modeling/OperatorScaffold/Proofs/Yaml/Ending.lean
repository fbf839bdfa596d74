import OperatorScaffold.Proofs.Yaml.Margin
/-!
How the text of a value ends. Only a block of lines can end with empty lines, which a file does not keep at its
end.
-/

namespace OperatorScaffold

namespace Yaml

/-- The text is kept at the end of a file: if it is written line by line, its last line is not empty. -/
def KeptAtEnd (s : String) : Prop := chooseStyle false s = .literal → s ≠ "\n" ∧ ¬['\n', '\n'] <:+ s.toList

instance : DecidablePred KeptAtEnd := fun s =>
  inferInstanceAs (Decidable (chooseStyle false s = .literal → s ≠ "\n" ∧ ¬['\n', '\n'] <:+ s.toList))

end Yaml

namespace Json

mutual

/-- The text that is written last, if the value ends with one. -/
def lastText? : Json → Option String
  | .str s => some s
  | .arr items => lastTextOfItems? items
  | .obj members => lastTextOfMembers? members
  | _ => none

def lastTextOfItems? : List Json → Option String
  | [] => none
  | v :: vs => if vs.isEmpty then v.lastText? else lastTextOfItems? vs

def lastTextOfMembers? : List (String × Json) → Option String
  | [] => none
  | (_, v) :: ms => if ms.isEmpty then v.lastText? else lastTextOfMembers? ms

end

end Json

namespace Yaml

open Cursor (isBreakChar)
open Pen

/-- The last character is neither a blank nor a line feed. -/
def EndsInk (cs : List Char) : Prop := ∃ init c, cs = init ++ [c] ∧ c ≠ ' ' ∧ c ≠ '\n'

section

variable {cs ds l : List Char} {i margin : Nat} {s : String}

theorem EndsInk.append (h : EndsInk ds) (cs : List Char) : EndsInk (cs ++ ds) := by
  obtain ⟨init, c, rfl, hc⟩ := h
  exact ⟨cs ++ init, c, (List.append_assoc _ _ _).symm, hc⟩

theorem EndsInk.cons (h : EndsInk cs) (c : Char) : EndsInk (c :: cs) := h.append [c]

theorem endsInk_concat {c : Char} (cs : List Char) (hblank : c ≠ ' ') (hfeed : c ≠ '\n') : EndsInk (cs ++ [c]) :=
  ⟨cs, c, rfl, hblank, hfeed⟩

theorem Ink.endsInk (h : Ink cs) : EndsInk cs := by
  obtain hnil | ⟨init, c, rfl⟩ := cs.eq_nil_or_concat
  · exact absurd hnil h.ne_nil
  · have hc := h.chars c (by simp)
    rw [List.concat_eq_append]
    exact endsInk_concat init (ne_of_isInkChar hc (by decide)) (ne_of_isInkChar hc (by decide))

/-- The last line is at the end of the text, but for a line feed behind it. -/
theorem exists_last_line (h : (textLines cs).getLast? = some l) :
    ∃ init, cs = init ++ l ∨ cs = init ++ l ++ ['\n'] := by
  induction cs using Text.lines_induction with
  | last cs hfeed =>
    obtain rfl | hne := eq_or_ne cs []
    · cases h
    · rw [textLines_of_no_feed hne hfeed] at h
      exact ⟨[], .inl (Option.some.inj h)⟩
  | line m cs hfeed ih =>
    rw [textLines_line hfeed] at h
    cases hlines : textLines cs with
    | nil =>
      obtain rfl : cs = [] := by
        by_contra hne
        exact textLines_ne_nil hne hlines
      rw [hlines] at h
      obtain rfl := Option.some.inj h
      exact ⟨[], .inr rfl⟩
    | cons x xs =>
      rw [hlines, List.getLast?_cons_cons, ← hlines] at h
      obtain ⟨init, rfl | rfl⟩ := ih h
      · exact ⟨m ++ '\n' :: init, .inl (by simp)⟩
      · exact ⟨m ++ '\n' :: init, .inr (by simp)⟩

theorem endsInk_literalText (hs : chooseStyle false s = .literal) (hk : KeptAtEnd s) :
    EndsInk (literalText margin i s.toList) := by
  obtain ⟨-, hliteral, hfeed⟩ := of_literal hs
  obtain ⟨hone, htwo⟩ := hk hs
  simp only [Demands.literal, Bool.not_eq_true', Bool.or_eq_false_iff] at hliteral
  obtain ⟨⟨-, hend⟩, hbreak⟩ := hliteral
  have hlines : textLines s.toList ≠ [] := textLines_ne_nil (List.ne_nil_of_mem hfeed)
  obtain ⟨init, l, hL⟩ := (textLines s.toList).eq_nil_or_concat.resolve_left hlines
  rw [List.concat_eq_append] at hL
  have hlast : (textLines s.toList).getLast? = some l := by rw [hL, List.getLast?_concat]
  have hne : l ≠ [] := by
    rintro rfl
    obtain h | ⟨more, h⟩ := of_getLast?_textLines hlast
    · exact hone (String.toList_inj.1 h)
    · exact htwo ⟨more, h.symm⟩
  obtain ⟨l, c, rfl⟩ := l.eq_nil_or_concat.resolve_left hne
  rw [List.concat_eq_append] at hL hlast
  have hc : c ≠ ' ' := by
    rintro rfl
    obtain ⟨more, h | h⟩ := exists_last_line hlast
    · simp [Demands.ofChars, h, isSpaceChar, ← List.append_assoc] at hend
    · have := apart_of_hasPair hbreak (a := more ++ l) (c := ' ') (d := '\n') (b := []) (by simp [h]) rfl
      cases this
  have hmem : l ++ [c] ∈ textLines s.toList := List.mem_of_getLast? hlast
  have hcfeed : c ≠ '\n' := (mem_of_mem_textLines hmem (List.mem_append_right l List.mem_cons_self)).2
  have hline : blockLine margin i (l ++ [c]) = List.replicate i ' ' ++ (l ++ [c]) := by simp [blockLine]
  rw [literalText, hL, List.flatMap_append, List.flatMap_singleton, hline]
  exact ((((endsInk_concat l hc hcfeed).append _).cons _).append _).append _

theorem endsInk_scalarText (hk : KeptAtEnd s) : EndsInk (scalarText margin i false s) := by
  have hquote (single : Bool) : Lexeme.quote single ≠ ' ' ∧ Lexeme.quote single ≠ '\n' := by cases single <;> decide
  unfold scalarText
  cases hstyle : chooseStyle false s with
  | plain =>
    obtain ⟨hne, hplain⟩ := of_plain hstyle
    obtain ⟨init, c, hs⟩ := s.toList.eq_nil_or_concat.resolve_left (String.toList_eq_nil_iff.not.2 hne)
    rw [List.concat_eq_append] at hs
    simp only [Demands.plain, Bool.not_eq_true', Bool.or_eq_false_iff] at hplain
    have hend : isSpaceChar c = false ∧ isBreakChar c = false := by
      have hloose := hplain.1.1.2
      simp only [Demands.ofChars, Bool.or_eq_false_iff, hs] at hloose
      simpa using hloose.2
    refine hs ▸ endsInk_concat init ?_ ?_
    · rintro rfl
      cases hend.1
    · rintro rfl
      cases hend.2
  | single => exact (endsInk_concat _ (hquote true).1 (hquote true).2).cons _
  | double => exact (endsInk_concat _ (hquote false).1 (hquote false).2).cons _
  | literal => exact endsInk_literalText hstyle hk

end

mutual

theorem endsInk_nodeText : ∀ {v : Json} {margin i : Nat} {inline : Bool}, (∀ s ∈ v.lastText?, KeptAtEnd s) →
    EndsInk (nodeText margin i inline v)
  | .null, _, _, _, _ => ⟨" nul".toList, 'l', rfl, by decide, by decide⟩
  | .bool true, _, _, _, _ => ⟨" tru".toList, 'e', rfl, by decide, by decide⟩
  | .bool false, _, _, _, _ => ⟨" fals".toList, 'e', rfl, by decide, by decide⟩
  | .int n, _, _, _, _ => (ink_toString n).endsInk.cons ' '
  | .float x, _, _, _, _ => (ink_write .yaml x).endsInk.cons ' '
  | .str s, _, _, _, hv => (endsInk_scalarText (hv s rfl)).cons ' '
  | .arr [], _, _, _, _ => ⟨[' ', '['], ']', rfl, by decide, by decide⟩
  | .obj [], _, _, _, _ => ⟨[' ', '\x7b'], '\x7d', rfl, by decide, by decide⟩
  | .arr (v :: vs), _, _, true, hv => endsInk_itemsText (List.cons_ne_nil v vs) hv
  | .arr (v :: vs), _, _, false, hv => endsInk_itemsText (List.cons_ne_nil v vs) hv
  | .obj (m :: ms), _, _, _, hv => endsInk_membersText (List.cons_ne_nil m ms) hv

theorem endsInk_itemsText : ∀ {vs : List Json} {margin i : Nat} {lead : List Char}, vs ≠ [] →
    (∀ s ∈ Json.lastTextOfItems? vs, KeptAtEnd s) → EndsInk (itemsText margin i lead vs)
  | [], _, _, _, hne, _ => absurd rfl hne
  | v :: vs, margin, i, lead, _, hv => by
    rw [itemsText]
    obtain rfl | hne := eq_or_ne vs []
    · rw [itemsText, List.append_nil]
      exact ((endsInk_nodeText hv).cons '-').append lead
    · rw [Json.lastTextOfItems?, if_neg (by simpa using hne)] at hv
      exact (endsInk_itemsText hne hv).append _

theorem endsInk_membersText : ∀ {ms : List (String × Json)} {margin i : Nat} {lead : List Char}, ms ≠ [] →
    (∀ s ∈ Json.lastTextOfMembers? ms, KeptAtEnd s) → EndsInk (membersText margin i lead ms)
  | [], _, _, _, hne, _ => absurd rfl hne
  | (n, v) :: ms, margin, i, lead, _, hv => by
    rw [membersText]
    obtain rfl | hne := eq_or_ne ms []
    · rw [membersText, List.append_nil]
      refine EndsInk.append ?_ lead
      split
      · exact ((endsInk_nodeText hv).cons ':').append _
      · exact (((endsInk_nodeText hv).cons ':').append _).append _
    · rw [Json.lastTextOfMembers?, if_neg (by simpa using hne)] at hv
      exact (endsInk_membersText hne hv).append _

end

end Yaml

end OperatorScaffold

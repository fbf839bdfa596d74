import OperatorScaffold.Proofs.Template
import OperatorScaffold.Proofs.Template.Line
import OperatorScaffold.Proofs.Text.Split
/-!
What is found in the lines of a rendering by their starts and ends. A line of a template that starts
otherwise has nothing, so that a file tells what its template puts into the lines of one form.
-/

namespace OperatorScaffold.Template

open Marker Text

/-- Lines that are known by how they start and end. -/
structure Mark where
  start : String
  stop : String

namespace Mark

/-- What a line has between the start and the end. -/
def read? (m : Mark) (line : String) : Option String :=
  (dropPrefix? m.start line).bind (dropSuffix? m.stop)

def found (m : Mark) (text : String) : List String := (splitAtChar '\n' text).filterMap m.read?

variable {m : Mark} {s t : String} {ls : List String} {cs ds : List Char} {c : Char}

theorem read?_between (m : Mark) (s : String) : m.read? (m.start ++ s ++ m.stop) = some s := by
  have hstart : hasPrefix m.start (m.start ++ s ++ m.stop) = true := by
    simp [hasPrefix, String.toList_append]
  have hrest : String.ofList ((m.start ++ s ++ m.stop).toList.drop m.start.toList.length) = s ++ m.stop := by
    rw [String.append_assoc, String.toList_append, List.drop_left, String.ofList_toList]
  have hstop : hasSuffix m.stop (s ++ m.stop) = true := by
    simp [hasSuffix, String.toList_append]
  have htext : (s ++ m.stop).toList.take ((s ++ m.stop).toList.length - m.stop.toList.length) = s.toList := by
    rw [String.toList_append, List.length_append, Nat.add_sub_cancel, List.take_left]
  rw [read?, dropPrefix?, if_pos hstart, Option.bind_some, hrest, dropSuffix?, if_pos hstop, htext,
    String.ofList_toList]

/-- Neither text starts as the other does. -/
def StartsApart (cs ds : List Char) : Prop := ¬cs <+: ds ∧ ¬ds <+: cs

instance : Decidable (StartsApart cs ds) := inferInstanceAs (Decidable (¬cs <+: ds ∧ ¬ds <+: cs))

theorem read?_of_startsApart (hm : ds <+: m.start.toList) (h : StartsApart ds cs) :
    m.read? (.ofList cs ++ s) = none := by
  have hno : ¬hasPrefix m.start (.ofList cs ++ s) = true := by
    rw [hasPrefix, List.isPrefixOf_iff_prefix, String.toList_append, String.toList_ofList]
    intro hp
    exact (List.prefix_or_prefix_of_prefix (hm.trans hp) (List.prefix_append cs s.toList)).elim h.1 h.2
  rw [read?, dropPrefix?, if_neg hno, Option.bind_none]

/-- Neither text ends as the other does. -/
def EndsApart (cs ds : List Char) : Prop := ¬cs <:+ ds ∧ ¬ds <:+ cs

instance : Decidable (EndsApart cs ds) := inferInstanceAs (Decidable (¬cs <:+ ds ∧ ¬ds <:+ cs))

theorem read?_of_endsApart (h : EndsApart m.stop.toList cs) : m.read? (s ++ .ofList cs) = none := by
  refine Option.eq_none_iff_forall_ne_some.2 fun t ht => ?_
  obtain ⟨rest, hrest, hstop⟩ := Option.bind_eq_some_iff.1 ht
  obtain ⟨-, hrest⟩ := Option.ite_none_right_eq_some.1 hrest
  obtain rfl := Option.some.inj hrest
  obtain ⟨hstop, -⟩ := Option.ite_none_right_eq_some.1 hstop
  rw [hasSuffix, List.isSuffixOf_iff_suffix, String.toList_ofList] at hstop
  have hend : m.stop.toList <:+ s.toList ++ cs := by
    simpa using hstop.trans (List.drop_suffix _ _)
  exact (List.suffix_or_suffix_of_suffix hend (List.suffix_append s.toList cs)).elim h.1 h.2

theorem found_of_oneLine (h : OneLine s) : m.found s = (m.read? s).toList := by
  have hsplit : splitAtChar '\n' s = [s] := by
    rw [splitAtChar, splitWhere_of_forall fun c hc => by simpa using ne_of_mem_of_not_mem hc h]
    simp
  rw [found, hsplit]
  cases h : m.read? s <;> simp [h]

theorem found_between (h : OneLine (m.start ++ s ++ m.stop)) : m.found (m.start ++ s ++ m.stop) = [s] := by
  rw [found_of_oneLine h, read?_between]
  rfl

/-- A line has nothing if it starts with a text that the mark does not start with. -/
theorem found_line (hm : ds <+: m.start.toList) (hs : OneLine s)
    (h : decide ('\n' ∉ cs ∧ StartsApart ds cs)) : m.found (.ofList cs ++ s) = [] := by
  obtain ⟨hfeed, hapart⟩ := of_decide_eq_true h
  rw [found_of_oneLine (oneLine_append.2 ⟨oneLine_ofList.2 hfeed, hs⟩), read?_of_startsApart hm hapart]
  rfl

theorem found_line_end (hs : OneLine s) (h : decide ('\n' ∉ cs ∧ EndsApart m.stop.toList cs)) :
    m.found (s ++ .ofList cs) = [] := by
  obtain ⟨hfeed, hapart⟩ := of_decide_eq_true h
  rw [found_of_oneLine (oneLine_append.2 ⟨hs, oneLine_ofList.2 hfeed⟩), read?_of_endsApart hapart]
  rfl

theorem found_fixed (hm : ds <+: m.start.toList) (h : decide ('\n' ∉ cs ∧ StartsApart ds cs)) :
    m.found (.ofList cs) = [] := by
  rw [← String.append_empty (s := .ofList cs)]
  exact found_line hm (oneLine_fixed rfl) h

theorem found_blank (hm : ds <+: m.start.toList) (h : decide (ds ≠ [])) : m.found "" = [] := by
  have hno : ¬hasPrefix m.start "" = true := by
    rw [hasPrefix, List.isPrefixOf_iff_prefix]
    exact fun hp => of_decide_eq_true h (List.prefix_nil.1 (hm.trans hp))
  rw [found_of_oneLine (oneLine_fixed rfl), read?, dropPrefix?, if_neg hno]
  rfl

theorem found_append_feed : m.found (s ++ "\n" ++ t) = m.found s ++ m.found t := by
  have hfeed : "\n".toList = ['\n'] := rfl
  rw [found, splitAtChar, String.toList_append, String.toList_append, hfeed, List.append_assoc,
    List.singleton_append, splitWhere_append (by decide), List.map_append, List.filterMap_append]
  rfl

theorem found_joinLines (hempty : m.found "" = []) (ls : List String) :
    m.found (joinLines ls) = ls.flatMap m.found := by
  induction ls with
  | nil => exact hempty
  | cons l ls ih =>
    cases ls with
    | nil => simp [joinLines]
    | cons l' ls =>
      rw [joinLines, String.intercalate_cons_cons, found_append_feed, List.flatMap_cons]
      exact congrArg _ ih

/-- A rendering whose last line ends with more than a blank tells what its lines tell. -/
theorem found_rendered (hempty : m.found "" = []) (hls : ls.getLast? = some (.ofList (cs ++ [c])))
    (hc : ¬isBlank c) : m.found (withOneNewline (joinLines ls)) = ls.flatMap m.found := by
  obtain ⟨init, hinit⟩ := List.getLast?_eq_some_iff.1 hls
  obtain ⟨ds, hds⟩ := exists_toList_joinLines init (.ofList (cs ++ [c]))
  rw [← hinit, String.toList_ofList, ← List.append_assoc] at hds
  rw [withOneNewline_eq hds hc, ← String.append_empty (s := _ ++ "\n"), found_append_feed, hempty,
    List.append_nil, found_joinLines hempty]

theorem found_skip {ns : List String} (h : m.found s = []) (hls : ls.flatMap m.found = ns) :
    (s :: ls).flatMap m.found = ns := by
  rw [List.flatMap_cons, h, hls, List.nil_append]

theorem found_take {ns : List String} (h : m.found s = [t]) (hls : ls.flatMap m.found = ns) :
    (s :: ls).flatMap m.found = t :: ns := by
  rw [List.flatMap_cons, h, hls, List.singleton_append]

theorem flatMap_found_eq_nil (h : ∀ l ∈ ls, m.found l = []) : ls.flatMap m.found = [] :=
  List.flatMap_eq_nil_iff.2 h

theorem flatMap_found_unless {b : Prop} [Decidable b] (h : m.found s = []) :
    (if b then [] else [s]).flatMap m.found = [] := by
  split
  · rfl
  · exact flatMap_found_eq_nil (List.forall_mem_singleton.2 h)

end Mark

end OperatorScaffold.Template

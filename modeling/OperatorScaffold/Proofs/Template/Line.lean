import OperatorScaffold.Proofs.Marker.Unmarked
import OperatorScaffold.Proofs.Naming
/-!
Lines that are put together of fixed texts and of texts that are filled in. The fixed part shows that a
line is no marker line: its start cannot be the start of one, or what stands behind a text that is filled
in cannot be the end of one.
-/

namespace OperatorScaffold

open Marker Text Naming

/-- An interpolated text is put in as it is. -/
theorem toString_text (s : String) : toString s = s := rfl

/-- The text starts with a capital letter. -/
def Capital (s : String) : Prop := ∃ c ∈ s.toList.head?, isUpper c

variable {s t lead free : String} {cs : List Char}

theorem Naming.UpperCamel.capital (h : UpperCamel s) : Capital s := by
  obtain ⟨c, cs, hs, hc, -⟩ := h
  exact ⟨c, by rw [hs]; rfl, hc⟩

theorem Naming.UpperCamel.oneLine (h : UpperCamel s) : OneLine s := fun hfeed =>
  absurd (h.alphanumeric _ hfeed) (by decide)

theorem Naming.KubeVersion.oneLine (h : KubeVersion s) : OneLine s := fun hfeed =>
  absurd (h.alphanumeric _ hfeed) (by decide)

theorem Capital.append (h : Capital s) (t : String) : Capital (s ++ t) := by
  obtain ⟨c, hc, hu⟩ := h
  exact ⟨c, by rw [String.toList_append, List.head?_append, hc]; rfl, hu⟩

namespace Marker

/-- A fixed text is given by its characters, and what is asked of it is computed. -/
theorem oneLine_fixed (h : decide ('\n' ∉ cs)) : OneLine (.ofList cs) :=
  oneLine_ofList.2 (of_decide_eq_true h)

theorem guarded_fixed (h : decide ('\n' ∉ cs ∧ Barred cs)) : Guarded (.ofList cs) := by
  obtain ⟨hfeed, hbarred⟩ := of_decide_eq_true h
  exact guarded_of_barred ⟨oneLine_ofList.2 hfeed, by rwa [String.toList_ofList]⟩

theorem unmarked_fixed (h : decide ('\n' ∉ cs ∧ Barred cs)) : Unmarked (String.ofList cs).toList :=
  (guarded_fixed h).unmarked

theorem unmarked_blank : Unmarked "".toList := unmarked_nil

theorem unmarked_unless {b : Prop} [Decidable b] (h : Unmarked s.toList) :
    ∀ l ∈ (if b then [] else [s]), Unmarked l.toList := by
  split
  · nofun
  · exact List.forall_mem_singleton.2 h

theorem unmarked_line (hs : OneLine s) (h : decide ('\n' ∉ cs ∧ Barred cs)) :
    Unmarked (.ofList cs ++ s).toList :=
  ((guarded_fixed h).append hs).unmarked

theorem joins_blank_capital {c : Char} (hc : isUpper c) : ¬joins ' ' c := by
  rw [joins_blank rfl]
  rintro (hb | rfl | rfl | rfl)
  · exact not_isBlank_of_isNameChar (by simp [isNameChar, isAlphanumeric_of_isUpper hc]) hb
  all_goals exact absurd hc (by decide)

/-- A comment that starts with a capital letter says nothing. -/
theorem guarded_comment (h : Capital s) (hs : OneLine s) : Guarded ("// " ++ s) := by
  obtain ⟨c, hc, hu⟩ := h
  obtain ⟨cs, hcs⟩ := List.head?_eq_some_iff.1 hc
  refine guarded_of_barred ⟨oneLine_append.2 ⟨oneLine_fixed rfl, hs⟩, ?_⟩
  rw [String.toList_append, hcs]
  intro hj
  have hpair : Joined [' ', c] := hj.infix ⟨[' ', '/', '/'], cs, rfl⟩
  exact joins_blank_capital hu (by simpa using hpair)

theorem unmarked_comment (hc : Capital s) (hs : OneLine s) (ht : OneLine t) :
    Unmarked ("// " ++ (s ++ t)).toList := by
  rw [← String.append_assoc]
  exact ((guarded_comment hc hs).append ht).unmarked

theorem unmarked_free (hfree : Unmarked free.toList) (h : decide ('\n' ∉ cs ∧ Barred cs)) :
    Unmarked (.ofList cs ++ free).toList :=
  (guarded_fixed h).append_unmarked hfree

theorem Unmarked.stop (hs : Unmarked s.toList) (h : decide ('\n' ∉ cs ∧ ¬Joined cs)) :
    Guarded (s ++ .ofList cs) := by
  obtain ⟨hfeed, hjoined⟩ := of_decide_eq_true h
  refine hs.append_guarded (oneLine_ofList.2 hfeed) fun l => ?_
  rw [String.toList_ofList]
  exact barred_append_of_not_joined hjoined

theorem Unmarked.append_dot (hs : Unmarked s.toList) : Unmarked (s ++ ".").toList := by
  rw [String.toList_append]
  exact hs.append (by decide) fun l => Silent.append_dot

/-- No marker line ends with a version behind a slash. -/
theorem Unmarked.append_version (hs : Unmarked s.toList) (ht : KubeVersion t) :
    Unmarked (s ++ ("/" ++ t)).toList := by
  obtain ⟨major, rest, -, -, he⟩ := id ht
  refine (hs.append_guarded (oneLine_append.2 ⟨oneLine_fixed rfl, ht.oneLine⟩) fun l => ?_).unmarked
  rw [String.toList_append, he]
  refine barred_append_of_not_joined fun hj => ?_
  have hpair : Joined ['/', 'v'] := hj.infix ⟨[], major ++ rest, rfl⟩
  exact absurd hpair (by decide)

/-- A text stands between a start of a line that lets nothing be a marker line and characters that are
in none. -/
theorem unmarked_around (hl : Guarded lead) (hfree : Unmarked free.toList) (hs : OneLine s)
    (h : decide ('\n' ∉ cs ∧ ¬Joined cs)) : Unmarked (lead ++ (free ++ (.ofList cs ++ s))).toList := by
  have hguard := ((hl.append_unmarked hfree).stop h).append hs
  simp only [String.append_assoc] at hguard
  exact hguard.unmarked

end Marker

theorem Text.OneLine.stop (hs : OneLine s) (h : decide ('\n' ∉ cs ∧ ¬Joined cs)) :
    Guarded (s ++ .ofList cs) := by
  obtain ⟨hfeed, hjoined⟩ := of_decide_eq_true h
  refine guarded_of_barred ⟨oneLine_append.2 ⟨hs, oneLine_ofList.2 hfeed⟩, ?_⟩
  rw [String.toList_append, String.toList_ofList]
  exact barred_append_of_not_joined hjoined

end OperatorScaffold

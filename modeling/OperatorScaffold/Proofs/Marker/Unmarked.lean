import OperatorScaffold.Proofs.Marker.Delimiter
import OperatorScaffold.Proofs.Text.Lines
/-!
Texts without marker lines, and how they are put together of parts.
-/

namespace OperatorScaffold.Marker

open Text

variable {cs more l m bs : List Char} {s t : String}

/-- No line of the text is a marker line. -/
def Unmarked (cs : List Char) : Prop := ∀ l ∈ chunks cs, Silent l

instance : DecidablePred Unmarked := fun cs => inferInstanceAs (Decidable (∀ l ∈ chunks cs, Silent l))

theorem unmarked_nil : Unmarked [] := nofun

theorem unmarked_iff_silent (h : '\n' ∉ cs) : Unmarked cs ↔ Silent cs := by
  cases cs with
  | nil => exact iff_of_true unmarked_nil silent_nil
  | cons c cs => rw [Unmarked, chunks_of_no_feed (List.cons_ne_nil _ _) h, List.forall_mem_singleton]

theorem silent_append_feed : Silent (l ++ ['\n']) ↔ Silent l :=
  silent_append_blanks (List.forall_mem_singleton.2 (by decide))

theorem unmarked_line_append (h : '\n' ∉ l) : Unmarked (l ++ '\n' :: cs) ↔ Silent l ∧ Unmarked cs := by
  rw [Unmarked, chunks_line_append h, List.forall_mem_cons, silent_append_feed]
  rfl

theorem unmarked_append_feed : Unmarked (cs ++ '\n' :: more) ↔ Unmarked cs ∧ Unmarked more := by
  induction cs using lines_induction with
  | last cs h => rw [unmarked_line_append h, unmarked_iff_silent h]
  | line l cs h ih => rw [List.append_assoc, List.cons_append, unmarked_line_append h, ih,
      unmarked_line_append h, and_assoc]

theorem unmarked_concat_feed : Unmarked (cs ++ ['\n']) ↔ Unmarked cs := by
  rw [unmarked_append_feed, and_iff_left unmarked_nil]

theorem Unmarked.of_append_blanks (hb : ∀ c ∈ bs, isBlank c) (h : Unmarked (cs ++ bs)) : Unmarked cs := by
  induction cs using lines_induction with
  | last cs hcs =>
    rw [unmarked_iff_silent hcs]
    induction bs using lines_induction with
    | last bs hbs =>
      have hfeed : '\n' ∉ cs ++ bs := fun hm => (List.mem_append.1 hm).elim hcs hbs
      exact (silent_append_blanks hb).1 ((unmarked_iff_silent hfeed).1 h)
    | line b bs hb' _ =>
      have hfeed : '\n' ∉ cs ++ b := fun hm => (List.mem_append.1 hm).elim hcs hb'
      rw [← List.append_assoc, unmarked_line_append hfeed] at h
      exact (silent_append_blanks fun c hc => hb c (List.mem_append_left _ hc)).1 h.1
  | line l cs hl ih =>
    rw [List.append_assoc, List.cons_append, unmarked_line_append hl] at h
    exact (unmarked_line_append hl).2 ⟨h.1, ih h.2⟩

theorem Unmarked.dropEnd {p : Char → Bool} (hp : ∀ c, p c → isBlank c) (h : Unmarked s.toList) :
    Unmarked (Text.dropEnd p s).toList := by
  obtain ⟨bs, hbs, he⟩ := exists_toList_dropEnd p s
  exact (he ▸ h).of_append_blanks fun c hc => hp c (hbs c hc)

theorem Unmarked.trimEnd (h : Unmarked s.toList) : Unmarked (Text.trimEnd s).toList :=
  h.dropEnd fun _ => id

theorem Unmarked.silent_of_mem_lines (hs : Unmarked s.toList) (h : t ∈ Text.lines s) : Silent t.toList := by
  obtain ⟨l, hl, rfl⟩ := List.mem_map.1 h
  rw [String.toList_ofList]
  have hsilent := hs l hl
  obtain hl | ⟨m, hm, rfl⟩ := mem_chunks hl
  · rwa [chomp_of_no_feed hl]
  · rw [silent_append_feed] at hsilent
    obtain h | h := chomp_concat_feed m
    · rwa [h]
    · rw [h] at hsilent
      exact (silent_append_blanks (List.forall_mem_singleton.2 (by decide))).1 hsilent

/-- What is put behind a text is put behind its last line. -/
theorem Unmarked.append (h : Unmarked cs) (hfeed : '\n' ∉ m) (hm : ∀ l, Silent l → Silent (l ++ m)) :
    Unmarked (cs ++ m) := by
  induction cs using lines_induction with
  | last cs hcs =>
    have hno : '\n' ∉ cs ++ m := fun hm' => (List.mem_append.1 hm').elim hcs hfeed
    exact (unmarked_iff_silent hno).2 (hm cs ((unmarked_iff_silent hcs).1 h))
  | line l cs hl ih =>
    rw [unmarked_line_append hl] at h
    rw [List.append_assoc, List.cons_append, unmarked_line_append hl]
    exact ⟨h.1, ih h.2⟩

/-- If the text has several lines, none of them is a marker line. -/
def Quiet (s : String) : Prop := '\n' ∈ s.toList → Unmarked s.toList

instance : DecidablePred Quiet := fun s => inferInstanceAs (Decidable ('\n' ∈ s.toList → Unmarked s.toList))

/-- No line of the text is a marker line, however the last one goes on. -/
def Guarded (s : String) : Prop := ∀ m, '\n' ∉ m → Unmarked (s.toList ++ m)

theorem Guarded.unmarked (h : Guarded s) : Unmarked s.toList := by
  simpa using h [] List.not_mem_nil

theorem Guarded.append (h : Guarded s) (ht : OneLine t) : Guarded (s ++ t) := by
  intro m hm
  rw [String.toList_append, List.append_assoc]
  exact h _ fun hfeed => (List.mem_append.1 hfeed).elim ht hm

/-- What is put in front of a text is put in front of its first line. -/
theorem Guarded.append_unmarked (h : Guarded s) (ht : Unmarked t.toList) : Unmarked (s ++ t).toList := by
  rw [String.toList_append]
  generalize t.toList = cs at ht
  induction cs using lines_induction with
  | last cs hcs => exact h cs hcs
  | line l cs hl _ =>
    rw [← List.append_assoc, unmarked_append_feed]
    exact ⟨h l hl, ((unmarked_line_append hl).1 ht).2⟩

theorem Unmarked.append_guarded (h : Unmarked s.toList) (ht : OneLine t)
    (hs : ∀ l, Barred (l ++ t.toList)) : Guarded (s ++ t) := by
  intro m hm
  rw [String.toList_append, List.append_assoc]
  have hfeed : '\n' ∉ t.toList ++ m := fun hf => (List.mem_append.1 hf).elim ht hm
  refine h.append hfeed fun l _ => ?_
  rw [← List.append_assoc]
  exact ((hs l).append m).silent

theorem guarded_of_barred (h : OneLine s ∧ Barred s.toList) : Guarded s := by
  intro m hm
  have hfeed : '\n' ∉ s.toList ++ m := fun hf => (List.mem_append.1 hf).elim h.1 hm
  exact (unmarked_iff_silent hfeed).2 (h.2.append m).silent

end OperatorScaffold.Marker

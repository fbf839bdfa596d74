import OperatorScaffold.Proofs.Marker.Grammar
import OperatorScaffold.Proofs.Marker.Regeneration
/-!
The documents that texts are read as give the texts back. Between two regions there is one text at
most, a region is found by its name, and it knows the number of its first line.
-/

namespace OperatorScaffold.Marker

open Text

variable {text : String} {ls : List String} {d before after : Document} {r : Region} {n : Nat}

namespace Document

/-- A document as it is found in a text. -/
structure Canonical (text : String) (d : Document) : Prop where
  render : d.render = text
  text_ne : ∀ ls, .text ls ∈ d → String.join ls ≠ ""
  apart : d.IsChain fun s t => ¬(s.isText ∧ t.isText)
  distinct : (d.regions.map (·.name)).Nodup
  found : ∀ name r, d.region? name = some r ↔ r ∈ d.regions ∧ r.name = name
  body : ∀ r ∈ d.regions, ∀ l ∈ r.body, IsLine l ∧ ∀ m, ¬Delimiter.Written m l
  line : ∀ (before after : Document) r, d = before ++ .region r :: after → ∃ rest,
    text = before.render ++ (r.opening ++ rest) ∧ IsLine r.opening ∧
      Delimiter.Written ⟨r.scope, .opening, r.name⟩ r.opening ∧
      r.line = before.render.toList.count '\n' + 1

theorem lines_append (before after : Document) : lines (before ++ after) = before.lines ++ after.lines :=
  List.flatMap_append

theorem numbered_append (n : Nat) (before after : Document) :
    numbered n (before ++ after) = numbered n before ++ numbered (n + before.lines.length) after := by
  induction before generalizing n with
  | nil => rfl
  | cons s before ih =>
    cases s with
    | text ls => simp [numbered, ih, Segment.lines, Nat.add_assoc]
    | region r =>
      simp [numbered, ih, Segment.lines, Region.lines, Nat.add_assoc]
      congr 1
      omega

theorem length_numbered (n : Nat) (d : Document) : (numbered n d).length = d.length := by
  induction d generalizing n with
  | nil => rfl
  | cons s d ih => cases s <;> simp [numbered, ih]

/-- A region has the number of the line behind those in front of it. -/
theorem line_of_numbered (h : numbered n (before ++ .region r :: after) = before ++ .region r :: after) :
    r.line = n + before.lines.length := by
  rw [numbered_append] at h
  obtain ⟨-, h⟩ := List.append_inj h (length_numbered n before)
  obtain ⟨h, -⟩ := List.cons.inj h
  exact (congrArg Region.line (Segment.region.inj h)).symm

theorem WellFormed.text_ne_nil {seen : List String} (h : WellFormed seen d) (ht : .text ls ∈ d) :
    ls ≠ [] := by
  induction h with
  | nil => cases ht
  | text hne _ _ _ ih =>
    obtain ht | ht := List.mem_cons.1 ht
    · cases ht
      exact hne
    · exact ih ht
  | region _ _ _ ih =>
    obtain ht | ht := List.mem_cons.1 ht
    · cases ht
    · exact ih ht

theorem WellFormed.isChain {seen : List String} (h : WellFormed seen d) :
    d.IsChain fun s t => ¬(s.isText ∧ t.isText) := by
  induction h with
  | nil => exact .nil
  | @text seen ls d _ _ hd _ ih =>
    refine List.isChain_cons.2 ⟨fun t ht hboth => ?_, ih⟩
    rw [Option.mem_def.1 ht] at hd
    simp [hboth.2] at hd
  | region _ _ _ ih => exact List.isChain_cons.2 ⟨fun t _ hboth => Bool.noConfusion hboth.1, ih⟩

theorem ne_of_mem_chunked (h : Chunked ls) {l : String} (hl : l ∈ ls) : l ≠ "" := by
  induction h with
  | nil => cases hl
  | last hne _ =>
    cases List.mem_singleton.1 hl
    exact fun he => hne (he ▸ rfl)
  | line hline _ ih =>
    obtain rfl | hl := List.mem_cons.1 hl
    · rintro rfl
      obtain ⟨cs, -, hcs⟩ := hline
      simp at hcs
    · exact ih hl

theorem count_of_isLine {ls : List String} (h : ∀ l ∈ ls, IsLine l) :
    (String.join ls).toList.count '\n' = ls.length := by
  induction ls with
  | nil => rfl
  | cons l ls ih =>
    obtain ⟨⟨cs, hcs, hl⟩, hls⟩ := List.forall_mem_cons.1 h
    rw [String.join_cons, String.toList_append, List.count_append, ih hls, hl, List.count_append,
      List.count_eq_zero.2 hcs, List.length_cons, Nat.add_comm]
    rfl

/-- In front of a region and in it there are whole lines only. -/
theorem isLine_of_region (h : Chunked (lines (before ++ .region r :: after))) :
    (∀ l ∈ before.lines, IsLine l) ∧ IsLine r.opening := by
  rw [lines_append, lines_cons, Segment.lines, Region.lines, List.cons_append] at h
  obtain ⟨hbefore, h⟩ := (chunked_append_iff (by simp)).1 h
  exact ⟨hbefore, h.isLine_of_ne_nil (by simp)⟩

theorem canonical_of_parse (h : parse text = .ok d) : d.Canonical text := by
  obtain ⟨hw, hn, hc, hrender⟩ := parse_eq_ok_iff.1 h
  have hreadable := readable_of_parse h
  refine ⟨hrender, fun ls hls he => ?_, hw.isChain, hw.nodup_names.1, fun name r => ⟨fun hr => ?_, ?_⟩,
    fun r hr l hl => ?_, ?_⟩
  · obtain ⟨l, hl⟩ := List.exists_mem_of_ne_nil ls (hw.text_ne_nil hls)
    have hempty : ls.flatMap String.toList = [] := by rw [← String.toList_join, he]; rfl
    have hl' : l.toList = [] := List.flatMap_eq_nil_iff.1 hempty l hl
    exact ne_of_mem_chunked hc (List.mem_flatMap.2 ⟨_, hls, hl⟩) (String.toList_eq_nil_iff.1 hl')
  · exact mem_of_region? hr
  · rintro ⟨hr, rfl⟩
    exact hreadable.region?_eq hr
  · obtain ⟨hline, hnone⟩ := hreadable.isBodyLine r hr l hl
    exact ⟨hline, fun m hm => by cases hnone.symm.trans (delimiter?_eq_some_iff.2 hm)⟩
  · rintro before after r rfl
    obtain ⟨hbefore, hopening⟩ := isLine_of_region hc
    have hr : r ∈ regions (before ++ .region r :: after) :=
      List.mem_filterMap.2 ⟨.region r, by simp, rfl⟩
    refine ⟨String.join (r.body ++ r.closing :: after.lines), ?_, hopening,
      delimiter?_eq_some_iff.1 (hw.of_mem_regions r hr).opening, ?_⟩
    · rw [← hrender, render, render, lines_append, lines_cons, Segment.lines, Region.lines]
      simp only [List.cons_append, List.append_assoc, List.nil_append, String.join_append, String.join_cons]
    · rw [line_of_numbered hn, render, count_of_isLine hbefore, Nat.add_comm]

/-- A line that ends with a carriage return, a region without lines, and one that ends the text
without a line feed. -/
theorem canonical_of_two_regions :
    let d : Document := [.text ["a\r\n"],
      .region ⟨"x", .static, "// +opforge:static:begin:x\n", [], "//+opforge:static:end:x\n", 2⟩,
      .region ⟨"y", .dynamic, "# +opforge:dynamic:begin:y\n", ["b\n"], "# +opforge:dynamic:end:y", 4⟩]
    parse d.render = .ok d ∧ d.Canonical d.render := by
  intro d
  have h : parse d.render = .ok d := by decide +kernel
  exact ⟨h, canonical_of_parse h⟩

end Document

end OperatorScaffold.Marker

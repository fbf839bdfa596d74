import Mathlib.Data.List.Forall2
import OperatorScaffold.Marker.Merge
import OperatorScaffold.Proofs.Marker.Reading
/-!
Merging keeps the skeleton of the fresh document and the bodies of the one on disk, and gives a text
that can be read again.
-/

namespace OperatorScaffold.Marker

open Text

/-- A line that can stand in a region. -/
def IsBodyLine (l : String) : Prop := IsLine l ∧ delimiter? l = none

namespace Document

/-- The documents that texts are read as, up to the numbers of the lines. -/
def Readable (d : Document) : Prop := WellFormed [] d ∧ Chunked d.lines

theorem readable_of_parse {text : String} {d : Document} (h : parse text = .ok d) : d.Readable := by
  obtain ⟨hw, -, hc, -⟩ := parse_eq_ok_iff.1 h
  exact ⟨hw, hc⟩

@[simp] theorem regions_nil : regions [] = [] := rfl

@[simp] theorem regions_text (ls : List String) (d : Document) : regions (.text ls :: d) = d.regions :=
  rfl

@[simp] theorem regions_region (r : Region) (d : Document) :
    regions (.region r :: d) = r :: d.regions := rfl

theorem isLine_of_mem_body {d : Document} (h : Chunked (lines d)) :
    ∀ r ∈ d.regions, ∀ l ∈ r.body, IsLine l := by
  induction d with
  | nil => simp
  | cons s d ih =>
    cases s with
    | text ls =>
      by_cases hd : lines d = []
      · exact ih (hd ▸ .nil)
      · exact ih ((chunked_append_iff hd).1 h).2
    | region r =>
      have h' : Chunked ((r.opening :: r.body) ++ (r.closing :: lines d)) := by
        simpa [Segment.lines, Region.lines] using h
      obtain ⟨hr, hd⟩ := (chunked_append_iff (by simp)).1 h'
      rw [regions_region, List.forall_mem_cons]
      exact ⟨fun l hl => hr l (by simp [hl]), ih hd.tail⟩

theorem WellFormed.of_mem_regions {seen : List String} {d : Document} (h : WellFormed seen d) :
    ∀ r ∈ d.regions, r.WellFormed := by
  induction h with
  | nil => simp
  | text _ _ _ _ ih => exact ih
  | region _ hw _ ih => exact List.forall_mem_cons.2 ⟨hw, ih⟩

theorem Readable.isBodyLine {d : Document} (h : d.Readable) :
    ∀ r ∈ d.regions, ∀ l ∈ r.body, IsBodyLine l :=
  fun r hr l hl => ⟨isLine_of_mem_body h.2 r hr l hl, (h.1.of_mem_regions r hr).body l hl⟩

theorem region?_eq_none_iff {d : Document} {name : String} :
    d.region? name = none ↔ ∀ r ∈ d.regions, r.name ≠ name := by
  simp [region?]

theorem mem_of_region? {d : Document} {name : String} {r : Region} (h : d.region? name = some r) :
    r ∈ d.regions ∧ r.name = name :=
  ⟨List.mem_of_find?_eq_some h, by simpa using List.find?_some h⟩

def names (d : Document) : List String := d.regions.map (·.name)

end Document

theorem mem_of_mem_newLines {present fresh : List String} {l : String}
    (h : l ∈ newLines present fresh) : l ∈ fresh := by
  induction fresh generalizing present with
  | nil => exact h
  | cons m ms ih =>
    rw [newLines] at h
    split at h
    · exact List.mem_cons_of_mem _ (ih h)
    · obtain rfl | h := List.mem_cons.1 h
      · exact List.mem_cons_self
      · exact List.mem_cons_of_mem _ (ih h)

/-- Lines have their line feeds, so that none is made good. -/
theorem unionLines_of_isLine {existing fresh : List String} (he : ∀ l ∈ existing, IsLine l)
    (hf : ∀ l ∈ fresh, IsLine l) :
    unionLines existing fresh = existing ++ newLines (existing.map trim) fresh := by
  have h : ∀ l ∈ existing ++ newLines (existing.map trim) fresh, closeLine l = l := by
    intro l hl
    obtain hl | hl := List.mem_append.1 hl
    · exact closeLine_of_isLine (he l hl)
    · exact closeLine_of_isLine (hf l (mem_of_mem_newLines hl))
  unfold unionLines
  split
  next hn => simp [hn]
  next => rw [List.map_congr_left h, List.map_id']

theorem Scope.eq_static_or_dynamic (s : Scope) : s = .static ∨ s = .dynamic := by
  cases s
  · exact .inl rfl
  · exact .inr rfl

section Region

variable {existing : Document} {r p : Region}

theorem mergeRegion_of_none (h : existing.region? r.name = none) : mergeRegion existing r = r := by
  rw [mergeRegion, h]

theorem mergeRegion_of_static (h : existing.region? r.name = some p) (hs : r.scope = .static) :
    mergeRegion existing r = { r with body := p.body } := by
  rw [mergeRegion, h]
  simp only [hs]

theorem mergeRegion_of_dynamic (h : existing.region? r.name = some p) (hs : r.scope = .dynamic) :
    mergeRegion existing r = { r with body := unionLines p.body r.body } := by
  rw [mergeRegion, h]
  simp only [hs]

theorem mergeRegion_eq (existing : Document) (r : Region) :
    mergeRegion existing r = { r with body := (mergeRegion existing r).body } := by
  cases h : existing.region? r.name with
  | none => rw [mergeRegion_of_none h]
  | some p =>
    obtain hs | hs := r.scope.eq_static_or_dynamic
    · rw [mergeRegion_of_static h hs]
    · rw [mergeRegion_of_dynamic h hs]

end Region

@[simp] theorem merge_nil (existing : Document) : merge [] existing = [] := rfl

@[simp] theorem merge_text (existing : Document) (ls : List String) (d : Document) :
    merge (.text ls :: d) existing = .text ls :: merge d existing := rfl

@[simp] theorem merge_region (existing : Document) (r : Region) (d : Document) :
    merge (.region r :: d) existing = .region (mergeRegion existing r) :: merge d existing := rfl

/-- `l` is not blank and none of `lines`, up to blanks around them. -/
def Lacks (lines : List String) (l : String) : Prop := trim l ≠ "" ∧ trim l ∉ lines.map trim

/-- The second lines are those of the first, in order, that are lacking when it is their turn: that
neither `kept` has nor those that were added before. -/
inductive Additions (kept : List String) : List String → List String → Prop
  | nil : Additions kept [] []
  | skip {fresh added : List String} {l : String} : Additions kept fresh added →
      ¬Lacks (kept ++ added) l → Additions kept (fresh ++ [l]) added
  | add {fresh added : List String} {l : String} : Additions kept fresh added →
      Lacks (kept ++ added) l → Additions kept (fresh ++ [l]) (added ++ [l])

theorem Additions.append_newLines {kept before added present ls : List String}
    (h : Additions kept before added) (hp : ∀ x, x ∈ present ↔ x ∈ (kept ++ added).map trim) :
    Additions kept (before ++ ls) (added ++ newLines present ls) := by
  induction ls generalizing before added present with
  | nil => simpa [newLines] using h
  | cons l ls ih =>
    rw [newLines]
    by_cases hl : Lacks (kept ++ added) l
    · have hc : ¬(trim l = "" || trim l ∈ present) := by
        simpa [Lacks, hp] using hl
      have hp' : ∀ x, x ∈ trim l :: present ↔ x ∈ (kept ++ (added ++ [l])).map trim := by
        intro x
        have e : (kept ++ (added ++ [l])).map trim = (kept ++ added).map trim ++ [trim l] := by simp
        rw [e, List.mem_append, List.mem_singleton, List.mem_cons, hp, or_comm]
      simpa [hc] using ih (h.add hl) hp'
    · have hc : (trim l = "" || trim l ∈ present) := by
        simpa [Lacks, hp, -List.map_append, -List.mem_map, or_iff_not_imp_left] using hl
      simpa [hc] using ih (h.skip hl) hp

theorem Additions.subset {kept fresh added : List String} (h : Additions kept fresh added) :
    added ⊆ fresh := by
  induction h with
  | nil => exact List.Subset.refl _
  | skip _ _ ih => exact List.subset_append_of_subset_left _ ih
  | add _ _ ih =>
    exact List.append_subset.2
      ⟨List.subset_append_of_subset_left _ ih, List.subset_append_right _ _⟩

theorem additions_newLines (kept fresh : List String) :
    Additions kept fresh (newLines (kept.map trim) fresh) := by
  have h : Additions kept [] [] := .nil
  simpa using h.append_newLines (by simp)

/-- What becomes of the body of the fresh region `r`. -/
inductive MergedBody (existing : Document) (r : Region) : List String → Prop
  | fresh : (∀ p ∈ existing.regions, p.name ≠ r.name) → MergedBody existing r r.body
  | kept {p : Region} : p ∈ existing.regions → p.name = r.name → r.scope = .static →
      MergedBody existing r p.body
  | extended {p : Region} {added : List String} : p ∈ existing.regions → p.name = r.name →
      r.scope = .dynamic → Additions p.body r.body added → MergedBody existing r (p.body ++ added)

/-- What becomes of a segment of the fresh document; all but the body and the number of a line
stays. -/
inductive MergedSegment (existing : Document) : Segment → Segment → Prop
  | text (ls : List String) : MergedSegment existing (.text ls) (.text ls)
  | region {r : Region} {body : List String} (line : Nat) : MergedBody existing r body →
      MergedSegment existing (.region r) (.region { r with body, line })

section Merge

variable {existing : Document} (he : ∀ p ∈ existing.regions, ∀ l ∈ p.body, IsBodyLine l)

include he

theorem mergedBody_mergeRegion {r : Region} (hr : ∀ l ∈ r.body, IsBodyLine l) :
    MergedBody existing r (mergeRegion existing r).body := by
  cases h : existing.region? r.name with
  | none =>
    rw [mergeRegion_of_none h]
    exact .fresh (Document.region?_eq_none_iff.1 h)
  | some p =>
    have ⟨hp, hn⟩ := Document.mem_of_region? h
    obtain hs | hs := r.scope.eq_static_or_dynamic
    · rw [mergeRegion_of_static h hs]
      change MergedBody existing r p.body
      exact .kept hp hn hs
    · rw [mergeRegion_of_dynamic h hs,
        unionLines_of_isLine (fun l hl => (he p hp l hl).1) (fun l hl => (hr l hl).1)]
      exact .extended hp hn hs (additions_newLines p.body r.body)

theorem isBodyLine_of_mem_mergeRegion {r : Region} (hr : ∀ l ∈ r.body, IsBodyLine l) :
    ∀ l ∈ (mergeRegion existing r).body, IsBodyLine l := by
  intro l hl
  have h := mergedBody_mergeRegion he hr
  generalize (mergeRegion existing r).body = body at h hl
  cases h with
  | fresh => exact hr l hl
  | kept hp => exact he _ hp l hl
  | extended hp _ _ ha =>
    obtain hl | hl := List.mem_append.1 hl
    · exact he _ hp l hl
    · exact hr l (ha.subset hl)

omit he in
theorem lines_merge_eq_nil {fresh : Document} (h : fresh.lines = []) :
    (merge fresh existing).lines = [] := by
  induction fresh with
  | nil => rfl
  | cons s d ih =>
    cases s with
    | text ls =>
      have ⟨hs, hd⟩ := List.append_eq_nil_iff.1 h
      simpa using ⟨hs, ih hd⟩
    | region r => simp [Segment.lines, Region.lines] at h

theorem wellFormed_merge {seen : List String} {fresh : Document} (h : fresh.WellFormed seen)
    (hf : ∀ r ∈ fresh.regions, ∀ l ∈ r.body, IsBodyLine l) :
    (merge fresh existing).WellFormed seen := by
  induction h with
  | nil => exact .nil
  | @text seen ls d hne hls hd _ ih =>
    refine .text hne hls ?_ (ih hf)
    cases d with
    | nil => rfl
    | cons s d => cases s <;> exact hd
  | @region seen r d hr hw _ ih =>
    have ⟨hb, hf⟩ := List.forall_mem_cons.1 hf
    have hb' := isBodyLine_of_mem_mergeRegion he hb
    rw [merge_region, mergeRegion_eq]
    exact .region hr ⟨hw.opening, fun l hl => (hb' l hl).2, hw.closing⟩ (ih hf)

theorem chunked_lines_merge {fresh : Document} (h : Chunked fresh.lines)
    (hf : ∀ r ∈ fresh.regions, ∀ l ∈ r.body, IsBodyLine l) :
    Chunked (merge fresh existing).lines := by
  induction fresh with
  | nil => exact .nil
  | cons s d ih =>
    cases s with
    | text ls => exact h.append_congr lines_merge_eq_nil fun h => ih h hf
    | region r =>
      have ⟨hb, hf⟩ := List.forall_mem_cons.1 hf
      have h' : Chunked ((r.opening :: r.body) ++ ([r.closing] ++ Document.lines d)) := by
        simpa [Segment.lines, Region.lines] using h
      obtain ⟨ho, hd⟩ := (chunked_append_iff (by simp)).1 h'
      have hm : ∀ l ∈ r.opening :: (mergeRegion existing r).body, IsLine l :=
        List.forall_mem_cons.2
          ⟨ho _ (by simp), fun l hl => (isBodyLine_of_mem_mergeRegion he hb l hl).1⟩
      have := Chunked.append hm (hd.append_congr lines_merge_eq_nil fun h => ih h hf)
      rw [merge_region, mergeRegion_eq]
      simpa [Segment.lines, Region.lines] using this

end Merge

theorem Document.Readable.merge {fresh existing : Document} (hf : fresh.Readable)
    (he : existing.Readable) : (merge fresh existing).Readable :=
  ⟨wellFormed_merge he.isBodyLine hf.1 hf.isBodyLine,
    chunked_lines_merge he.isBodyLine hf.2 hf.isBodyLine⟩

theorem forall₂_mergedSegment {fresh existing : Document} (he : existing.Readable)
    (hf : ∀ r ∈ fresh.regions, ∀ l ∈ r.body, IsBodyLine l) (n : Nat) :
    List.Forall₂ (MergedSegment existing) fresh ((merge fresh existing).numbered n) := by
  induction fresh generalizing n with
  | nil => exact .nil
  | cons s d ih =>
    cases s with
    | text ls => exact .cons (.text ls) (ih hf _)
    | region r =>
      have ⟨hb, hf⟩ := List.forall_mem_cons.1 hf
      rw [merge_region, mergeRegion_eq]
      exact .cons (.region n (mergedBody_mergeRegion he.isBodyLine hb)) (ih hf _)

theorem dropped_eq (fresh existing : Document) :
    dropped fresh existing = existing.names.filter (· ∉ fresh.names) := by
  change (existing.regions.filter _).map _ = (existing.regions.map _).filter _
  rw [List.filter_map]
  congr 2
  funext r
  cases h : fresh.region? r.name with
  | none => simpa [Document.names] using fun p hp e => Document.region?_eq_none_iff.1 h p hp e
  | some p => simpa [Document.names] using ⟨p, Document.mem_of_region? h⟩

/-- The merged text has the segments of the fresh document, with the bodies that `MergedBody` says. -/
theorem parse_render_merge {s t : String} {fresh existing : Document}
    (hf : Document.parse s = .ok fresh) (he : Document.parse t = .ok existing) :
    (∃ d, Document.parse (merge fresh existing).render = .ok d ∧
      List.Forall₂ (MergedSegment existing) fresh d) ∧
    dropped fresh existing = existing.names.filter (· ∉ fresh.names) := by
  have hf := Document.readable_of_parse hf
  have he := Document.readable_of_parse he
  have hm := hf.merge he
  exact ⟨⟨_, hm.1.parse_render hm.2, forall₂_mergedSegment he hf.isBodyLine 1⟩,
    dropped_eq fresh existing⟩

/-- The region was static on disk and is dynamic now; on disk are a line with a carriage return and a
blank one, and the fresh text has no line feed at its end. -/
theorem parse_render_merge_of_static_to_dynamic :
    let fresh : Document := [.text ["a\n"],
      .region ⟨"x", .dynamic, "# +opforge:dynamic:begin:x\n", ["- p\n", "- q\n"],
        "# +opforge:dynamic:end:x", 2⟩]
    let existing : Document := [
      .region ⟨"x", .static, "// +opforge:static:begin:x\r\n", ["- q \r\n", " \n"],
        "// +opforge:static:end:x\n", 1⟩]
    (Document.parse fresh.render = .ok fresh ∧ Document.parse existing.render = .ok existing) ∧
    (∃ d, Document.parse (merge fresh existing).render = .ok d ∧
      List.Forall₂ (MergedSegment existing) fresh d) ∧
    dropped fresh existing = existing.names.filter (· ∉ fresh.names) := by
  intro fresh existing
  have hf : Document.parse fresh.render = .ok fresh := by decide +kernel
  have he : Document.parse existing.render = .ok existing := by decide +kernel
  exact ⟨⟨hf, he⟩, parse_render_merge hf he⟩

end OperatorScaffold.Marker

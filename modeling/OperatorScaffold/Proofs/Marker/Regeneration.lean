import Mathlib.Data.List.Nodup
import OperatorScaffold.Proofs.Marker.Merge
/-!
Files that are generated again and again. What a user wrote into a region stays through any number of
fresh texts, and a text that was merged once is not changed by the same fresh text a second time.
-/

namespace OperatorScaffold.Marker

open Text

/-- The file after it is generated again, and the regions that it loses. -/
def regenerate (current fresh : String) : Except Error (String × List String) := do
  let f ← Document.parse fresh
  let c ← Document.parse current
  return ((merge f c).render, dropped f c)

/-- The file after it is generated again from each of the fresh texts in turn. -/
def history (current : String) : List String → Except Error String
  | [] => return current
  | f :: fs => do
    let (next, _) ← regenerate current f
    history next fs

namespace Document

theorem WellFormed.nodup_names {seen : List String} {d : Document} (h : WellFormed seen d) :
    d.names.Nodup ∧ ∀ n ∈ seen, n ∉ d.names := by
  induction h with
  | nil => simp [names]
  | text _ _ _ _ ih => exact ih
  | region hr _ _ ih =>
    obtain ⟨hd, hs⟩ := ih
    refine ⟨List.nodup_cons.2 ⟨hs _ List.mem_cons_self, hd⟩, fun n hn => ?_⟩
    rw [names, regions_region, List.map_cons, List.mem_cons, not_or]
    exact ⟨fun e => hr (e ▸ hn), hs n (List.mem_cons_of_mem _ hn)⟩

theorem Readable.region?_eq {d : Document} (h : d.Readable) {r : Region} (hr : r ∈ d.regions) :
    d.region? r.name = some r := by
  cases hp : d.region? r.name with
  | none => exact absurd rfl (region?_eq_none_iff.1 hp r hr)
  | some p =>
    have ⟨hm, hn⟩ := mem_of_region? hp
    rw [List.inj_on_of_nodup_map h.1.nodup_names.1 hm hr hn]

theorem mem_regions_numbered {d : Document} {r : Region} (h : r ∈ d.regions) (n : Nat) :
    ∃ line, { r with line } ∈ (d.numbered n).regions := by
  induction d generalizing n with
  | nil => simp at h
  | cons s d ih =>
    cases s with
    | text ls => exact ih h _
    | region p =>
      obtain rfl | h := List.mem_cons.1 h
      · exact ⟨n, List.mem_cons_self⟩
      · obtain ⟨line, h⟩ := ih h (n + p.body.length + 2)
        exact ⟨line, List.mem_cons_of_mem _ h⟩

@[simp] theorem names_numbered (n : Nat) (d : Document) : (d.numbered n).names = d.names := by
  induction d generalizing n with
  | nil => rfl
  | cons s d ih =>
    cases s with
    | text ls => exact ih _
    | region r => exact congrArg (r.name :: ·) (ih _)

@[simp] theorem render_numbered (n : Nat) (d : Document) : (d.numbered n).render = d.render := by
  simp [render]

theorem Readable.numbered {d : Document} (h : d.Readable) : (d.numbered 1).Readable :=
  readable_of_parse (h.1.parse_render h.2)

end Document

theorem newLines_eq_nil {present fresh : List String}
    (h : ∀ l ∈ fresh, trim l = "" ∨ trim l ∈ present) : newLines present fresh = [] := by
  induction fresh with
  | nil => rfl
  | cons l ls ih =>
    have ⟨hl, hls⟩ := List.forall_mem_cons.1 h
    rw [newLines, if_pos (by simpa using hl), ih hls]

theorem unionLines_of_not_lacks {existing fresh : List String}
    (h : ∀ l ∈ fresh, ¬Lacks existing l) : unionLines existing fresh = existing := by
  have hn : newLines (existing.map trim) fresh = [] :=
    newLines_eq_nil fun l hl => by
      simpa [Lacks, -List.mem_map, or_iff_not_imp_left] using h l hl
  rw [unionLines, hn]

theorem Lacks.mono {lines more : List String} {l : String} (h : Lacks (lines ++ more) l) :
    Lacks lines l := by
  refine ⟨h.1, fun hm => h.2 ?_⟩
  rw [List.map_append]
  exact List.mem_append_left _ hm

theorem Additions.not_lacks {kept fresh added : List String} (h : Additions kept fresh added) :
    ∀ l ∈ fresh, ¬Lacks (kept ++ added) l := by
  induction h with
  | nil => simp
  | skip _ hl ih =>
    intro l hm
    obtain hm | hm := List.mem_append.1 hm
    · exact ih l hm
    · rwa [List.mem_singleton.1 hm]
  | add _ _ ih =>
    intro l hm hl
    obtain hm | hm := List.mem_append.1 hm
    · exact ih l hm (.mono (by simpa using hl))
    · exact hl.2 (by simp [List.mem_singleton.1 hm])

theorem MergedBody.not_lacks {existing : Document} {r : Region} {body : List String}
    (h : MergedBody existing r body) (hs : r.scope = .dynamic) : ∀ l ∈ r.body, ¬Lacks body l := by
  cases h with
  | fresh => exact fun l hl h => h.2 (List.mem_map_of_mem hl)
  | kept _ _ hs' => rw [hs] at hs'; cases hs'
  | extended _ _ _ ha => exact ha.not_lacks

theorem names_merge (fresh existing : Document) : (merge fresh existing).names = fresh.names := by
  induction fresh with
  | nil => rfl
  | cons s d ih =>
    cases s with
    | text ls => exact ih
    | region r =>
      rw [merge_region, mergeRegion_eq]
      exact congrArg (r.name :: ·) ih

theorem mergeRegion_mem_merge (existing : Document) {fresh : Document} {r : Region}
    (h : r ∈ fresh.regions) : mergeRegion existing r ∈ (merge fresh existing).regions := by
  induction fresh with
  | nil => simp at h
  | cons s d ih =>
    cases s with
    | text ls => exact ih h
    | region p =>
      obtain rfl | h := List.mem_cons.1 h
      · exact List.mem_cons_self
      · exact List.mem_cons_of_mem _ (ih h)

theorem merge_congr {fresh d e : Document} (h : ∀ r ∈ fresh.regions, mergeRegion d r = mergeRegion e r) :
    merge fresh d = merge fresh e := by
  induction fresh with
  | nil => rfl
  | cons s f ih =>
    cases s with
    | text ls => exact congrArg (.text ls :: ·) (ih h)
    | region r =>
      have ⟨hr, hf⟩ := List.forall_mem_cons.1 h
      rw [merge_region, merge_region, hr, ih hf]

section Readable

variable {fresh existing : Document} (hf : fresh.Readable) (he : existing.Readable)

include hf he

theorem parse_merge :
    Document.parse (merge fresh existing).render = .ok ((merge fresh existing).numbered 1) :=
  (hf.merge he).1.parse_render (hf.merge he).2

theorem region?_merged {r : Region} (hr : r ∈ fresh.regions) : ∃ line,
    ((merge fresh existing).numbered 1).region? r.name =
      some { mergeRegion existing r with line } := by
  obtain ⟨line, h⟩ := Document.mem_regions_numbered (mergeRegion_mem_merge existing hr) 1
  refine ⟨line, ?_⟩
  rw [← (hf.merge he).numbered.region?_eq h, mergeRegion_eq]

theorem merge_merged : merge fresh ((merge fresh existing).numbered 1) = merge fresh existing := by
  refine merge_congr fun r hr => ?_
  obtain ⟨line, h⟩ := region?_merged hf he hr
  rw [mergeRegion_eq existing r]
  obtain hs | hs := r.scope.eq_static_or_dynamic
  · rw [mergeRegion_of_static h hs]
  · have hb := mergedBody_mergeRegion he.isBodyLine (hf.isBodyLine r hr)
    rw [mergeRegion_of_dynamic h hs, unionLines_of_not_lacks (hb.not_lacks hs)]

omit he in
theorem merge_self : merge fresh fresh = fresh := by
  have hself : ∀ r ∈ fresh.regions, mergeRegion fresh r = r := by
    intro r hr
    have h := hf.region?_eq hr
    obtain hs | hs := r.scope.eq_static_or_dynamic
    · rw [mergeRegion_of_static h hs]
    · rw [mergeRegion_of_dynamic h hs, unionLines_of_not_lacks]
      exact fun l hl hlacks => hlacks.2 (List.mem_map_of_mem hl)
  refine (List.map_congr_left fun s hs => ?_).trans (List.map_id _)
  cases s with
  | text ls => rfl
  | region r => exact congrArg Segment.region (hself r (List.mem_filterMap.2 ⟨_, hs, rfl⟩))

/-- A region that both documents have keeps its body, and a dynamic one may be longer. -/
theorem body_merged {r p : Region} (hr : r ∈ existing.regions) (hp : p ∈ fresh.regions)
    (hn : p.name = r.name) : ∃ r' ∈ ((merge fresh existing).numbered 1).regions, r'.name = r.name ∧
      r.body <+: r'.body ∧ (p.scope = .static → r'.body = r.body) := by
  obtain ⟨line, h⟩ := Document.mem_regions_numbered (mergeRegion_mem_merge existing hp) 1
  refine ⟨_, h, by rw [mergeRegion_eq]; exact hn, ?_⟩
  have hr' : existing.region? p.name = some r := hn ▸ he.region?_eq hr
  obtain hs | hs := p.scope.eq_static_or_dynamic
  · rw [mergeRegion_of_static hr' hs]
    exact ⟨List.prefix_rfl, fun _ => rfl⟩
  · have he' : ∀ l ∈ r.body, IsLine l := fun l hl => (he.isBodyLine r hr l hl).1
    have hf' : ∀ l ∈ p.body, IsLine l := fun l hl => (hf.isBodyLine p hp l hl).1
    rw [mergeRegion_of_dynamic hr' hs, unionLines_of_isLine he' hf']
    exact ⟨List.prefix_append _ _, fun h => by simp [hs] at h⟩

omit hf he in
theorem dropped_eq_nil {d : Document} (h : d.names ⊆ fresh.names) : dropped fresh d = [] := by
  rw [dropped_eq]
  simpa using fun n hn => h hn

end Readable

/-- `f` can be read and has a region of this name for which `p` holds. -/
def Renders (f name : String) (p : Region → Prop) : Prop :=
  ∃ d, Document.parse f = .ok d ∧ ∃ r ∈ d.regions, r.name = name ∧ p r

theorem regenerate_spec {c f : String} {d fresh : Document} (hc : Document.parse c = .ok d)
    (hf : Document.parse f = .ok fresh) : ∃ c' d', regenerate c f = .ok (c', dropped fresh d) ∧
      Document.parse c' = .ok d' ∧ d'.names = fresh.names ∧ regenerate c' f = .ok (c', []) ∧
      ∀ r ∈ d.regions, ∀ p ∈ fresh.regions, p.name = r.name → ∃ r' ∈ d'.regions,
        r'.name = r.name ∧ r.body <+: r'.body ∧ (p.scope = .static → r'.body = r.body) := by
  have hd := Document.readable_of_parse hc
  have hr := Document.readable_of_parse hf
  have hp := parse_merge hr hd
  have hn : ((merge fresh d).numbered 1).names = fresh.names := by
    rw [Document.names_numbered, names_merge]
  refine ⟨_, _, ?_, hp, hn, ?_, fun r hr' p hp' e => body_merged hr hd hr' hp' e⟩
  · rw [regenerate, hf, hc]; rfl
  · rw [regenerate, hf, hp]
    change Except.ok ((merge fresh ((merge fresh d).numbered 1)).render, _) = _
    rw [merge_merged hr hd, dropped_eq_nil fun _ hm => hn ▸ hm]

theorem history_append {e c c' f : String} {pre lost : List String} (h : history e pre = .ok c)
    (hr : regenerate c f = .ok (c', lost)) : history e (pre ++ [f]) = .ok c' := by
  induction pre generalizing e with
  | nil =>
    obtain rfl := pure_eq_ok.1 h
    exact bind_eq_ok.2 ⟨_, hr, rfl⟩
  | cons g gs ih =>
    obtain ⟨x, hx, h⟩ := bind_eq_ok.1 h
    exact bind_eq_ok.2 ⟨x, hx, ih h⟩

/-- Regions that all fresh texts have keep what the file had in them at the start. -/
theorem history_spec {e : String} {start : Document} {fs : List String}
    (he : Document.parse e = .ok start) (hf : ∀ f ∈ fs, ∃ d, Document.parse f = .ok d) :
    ∃ c d, history e fs = .ok c ∧ Document.parse c = .ok d ∧
      ∀ r ∈ start.regions, (∀ f ∈ fs, Renders f r.name fun _ => True) →
        ∃ r' ∈ d.regions, r'.name = r.name ∧ r.body <+: r'.body ∧
          ((∀ f ∈ fs, Renders f r.name (·.scope = .static)) → r'.body = r.body) := by
  induction fs generalizing e start with
  | nil => exact ⟨e, start, rfl, he, fun r hr _ => ⟨r, hr, rfl, List.prefix_rfl, fun _ => rfl⟩⟩
  | cons f fs ih =>
    have ⟨⟨fresh, hfresh⟩, hfs⟩ := List.forall_mem_cons.1 hf
    obtain ⟨c₁, d₁, hc₁, hd₁, -, -, hstep⟩ := regenerate_spec he hfresh
    obtain ⟨c, d, hc, hd, hrest⟩ := ih hd₁ hfs
    refine ⟨c, d, bind_eq_ok.2 ⟨_, hc₁, hc⟩, hd, fun r hr hall => ?_⟩
    have ⟨hfirst, hlater⟩ := List.forall_mem_cons.1 hall
    obtain ⟨_, hfresh', p, hp, hn, -⟩ := hfirst
    obtain rfl := Except.ok.inj (hfresh.symm.trans hfresh')
    obtain ⟨r₁, hr₁, hn₁, hb₁, hs₁⟩ := hstep r hr p hp hn
    obtain ⟨r', hr', hn', hb', hs'⟩ := hrest r₁ hr₁ (by rwa [hn₁])
    refine ⟨r', hr', hn'.trans hn₁, hb₁.trans hb', fun hst => ?_⟩
    have ⟨hfirst, hlater⟩ := List.forall_mem_cons.1 hst
    -- The static region is the one met above, since names come once.
    obtain ⟨_, hfresh', q, hq, hnq, hsq⟩ := hfirst
    obtain rfl := Except.ok.inj (hfresh.symm.trans hfresh')
    have hqp : q = p :=
      List.inj_on_of_nodup_map (Document.readable_of_parse hfresh).1.nodup_names.1 hq hp
        (hnq.trans hn.symm)
    rw [hs' (by rwa [hn₁]), hs₁ (hqp ▸ hsq)]

/-- Through all generations the file can be read and its regions keep what was in them at the start;
in a single one it loses only the regions that are reported, and the same fresh text a second time
changes nothing. -/
theorem history_keeps_edits {e : String} {start : Document} {fs : List String}
    (he : Document.parse e = .ok start) (hf : ∀ f ∈ fs, ∃ d, Document.parse f = .ok d) :
    (∃ c d, history e fs = .ok c ∧ Document.parse c = .ok d ∧
      ∀ r ∈ start.regions, (∀ f ∈ fs, Renders f r.name fun _ => True) →
        ∃ r' ∈ d.regions, r'.name = r.name ∧ r.body <+: r'.body ∧
          ((∀ f ∈ fs, Renders f r.name (·.scope = .static)) → r'.body = r.body)) ∧
    ∀ pre f post, fs = pre ++ f :: post → ∃ c d fresh c' d',
      history e pre = .ok c ∧ Document.parse c = .ok d ∧ Document.parse f = .ok fresh ∧
      regenerate c f = .ok (c', dropped fresh d) ∧ history e (pre ++ [f]) = .ok c' ∧
      Document.parse c' = .ok d' ∧
      (∀ n ∈ d.names, n ∉ d'.names → n ∈ dropped fresh d) ∧
      regenerate c' f = .ok (c', []) := by
  refine ⟨history_spec he hf, ?_⟩
  rintro pre f post rfl
  obtain ⟨c, d, hc, hd, -⟩ := history_spec he fun g hg => hf g (List.mem_append_left _ hg)
  obtain ⟨fresh, hfresh⟩ := hf f (by simp)
  obtain ⟨c', d', hc', hd', hn, hagain, -⟩ := regenerate_spec hd hfresh
  refine ⟨c, d, fresh, c', d', hc, hd, hfresh, hc', history_append hc hc', hd', fun n hm hl => ?_, hagain⟩
  rw [dropped_eq, List.mem_filter]
  exact ⟨hm, by simpa [hn] using hl⟩

/-- Between the generations a region vanishes and the other one changes its scope. -/
theorem history_keeps_edits_of_two :
    let start : Document := [
      .region ⟨"x", .static, "# +opforge:static:begin:x\n", ["- mine\r\n"],
        "# +opforge:static:end:x\n", 1⟩]
    let first : Document := [.text ["a\n"],
      .region ⟨"x", .dynamic, "# +opforge:dynamic:begin:x\n", ["- p\n", "\n", "- p\n"],
        "# +opforge:dynamic:end:x\n", 2⟩,
      .region ⟨"y", .static, "// +opforge:static:begin:y\n", [], "// +opforge:static:end:y\n", 7⟩]
    let second : Document := [
      .region ⟨"x", .static, "# +opforge:static:begin:x\n", ["- q\n"],
        "# +opforge:static:end:x", 1⟩]
    let fs := [first.render, second.render]
    (Document.parse start.render = .ok start ∧ ∀ f ∈ fs, ∃ d, Document.parse f = .ok d) ∧
    (∃ c d, history start.render fs = .ok c ∧ Document.parse c = .ok d ∧
      ∀ r ∈ start.regions, (∀ f ∈ fs, Renders f r.name fun _ => True) →
        ∃ r' ∈ d.regions, r'.name = r.name ∧ r.body <+: r'.body ∧
          ((∀ f ∈ fs, Renders f r.name (·.scope = .static)) → r'.body = r.body)) ∧
    ∀ pre f post, fs = pre ++ f :: post → ∃ c d fresh c' d',
      history start.render pre = .ok c ∧ Document.parse c = .ok d ∧ Document.parse f = .ok fresh ∧
      regenerate c f = .ok (c', dropped fresh d) ∧ history start.render (pre ++ [f]) = .ok c' ∧
      Document.parse c' = .ok d' ∧
      (∀ n ∈ d.names, n ∉ d'.names → n ∈ dropped fresh d) ∧
      regenerate c' f = .ok (c', []) := by
  intro start first second fs
  have he : Document.parse start.render = .ok start := by decide +kernel
  have hf : ∀ f ∈ fs, ∃ d, Document.parse f = .ok d :=
    List.forall_mem_cons.2 ⟨⟨first, by decide +kernel⟩,
      List.forall_mem_cons.2 ⟨⟨second, by decide +kernel⟩, by simp⟩⟩
  exact ⟨⟨he, hf⟩, history_keeps_edits he hf⟩

end OperatorScaffold.Marker

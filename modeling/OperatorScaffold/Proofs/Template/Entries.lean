import OperatorScaffold.Proofs.Template.Words
/-!
Lines of a template as the entries of a record. Lines are put together as the entries are: a line with a key and what
stands behind it, a line with a key and the lines below it, or lines one after another.
-/

namespace OperatorScaffold

open Text Yaml

namespace Yaml

/-- The line that documents stand between. -/
def separator : List Char := ['-', '-', '-', '\n']

def documents (text : String) : List String := ((chunks text.toList).splitOn separator).map fun ls => .ofList ls.flatten

/-- No line of the text stands between documents. -/
def Undivided (cs : List Char) : Prop := separator ∉ chunks (cs ++ ['\n'])

variable {cs ds : List Char}

theorem documents_last (h : Undivided cs) : documents (.ofList (cs ++ ['\n'])) = [.ofList (cs ++ ['\n'])] := by
  rw [documents, String.toList_ofList, List.splitOn_eq_singleton h, List.map_singleton, flatten_chunks]

theorem documents_cons (h : Undivided cs) (rest : List Char) :
    documents (.ofList (cs ++ '\n' :: (separator ++ rest))) = .ofList (cs ++ ['\n']) :: documents (.ofList rest) := by
  have hline : chunks (separator ++ rest) = separator :: chunks rest :=
    @chunks_line_append ['-', '-', '-'] (by decide) rest
  rw [documents, String.toList_ofList, chunks_append_feed, hline, List.splitOn_append_cons_self_of_not_mem h,
    List.map_cons, flatten_chunks, documents, String.toList_ofList]

theorem undivided_append_feed : Undivided (cs ++ '\n' :: ds) ↔ Undivided cs ∧ Undivided ds := by
  rw [Undivided, List.append_assoc, List.cons_append, chunks_append_feed, List.mem_append, not_or]
  rfl

theorem undivided_of_line (h : '\n' ∉ cs) (hne : cs ≠ ['-', '-', '-']) : Undivided cs := by
  rw [Undivided, chunks_line_append h]
  intro hm
  obtain he | hm := List.mem_cons.1 hm
  · have hcancel : cs ++ ['\n'] = ['-', '-', '-'] ++ ['\n'] := he.symm
    exact hne (List.append_cancel_right hcancel)
  · cases hm

end Yaml

namespace Template

variable {i k : Nat} {line key : String} {ls ls' : List String} {cs : List Char} {t : Tree}
  {entries more : List (Tree × Tree)}

theorem undivided_joinLines (h : ∀ l ∈ ls, Undivided l.toList) : Undivided (joinLines ls).toList := by
  induction ls with
  | nil => exact undivided_of_line (by decide) (by decide)
  | cons l ls ih =>
    obtain ⟨hl, hls⟩ := List.forall_mem_cons.1 h
    obtain rfl | hne := eq_or_ne ls []
    · simpa [joinLines] using hl
    · rw [toList_joinLines_cons l hne]
      exact undivided_append_feed.2 ⟨hl, ih hls⟩

theorem toList_joinLines_append (h : ls ≠ []) (h' : ls' ≠ []) :
    (joinLines (ls ++ ls')).toList = (joinLines ls).toList ++ '\n' :: (joinLines ls').toList := by
  rw [joinLines_append h h', String.toList_append, String.toList_append, List.append_assoc]
  rfl

theorem joinLines_divided (h : ls ≠ []) (h' : ls' ≠ []) :
    joinLines (ls ++ "---" :: ls') = joinLines ls ++ ("\n---\n" ++ joinLines ls') := by
  have hfeed : "\n---\n".toList = '\n' :: separator := by decide
  rw [← String.toList_inj, toList_joinLines_append h (List.cons_ne_nil _ _), toList_joinLines_cons _ h',
    String.toList_append, String.toList_append, hfeed]
  rfl

theorem toList_joinLines_head (l : String) (ls : List String) :
    (joinLines (l :: ls)).toList = l.toList ++ (joinLines ("" :: ls)).toList := by
  obtain rfl | hne := eq_or_ne ls []
  · simp [joinLines]
  · rw [toList_joinLines_cons l hne, toList_joinLines_cons "" hne]
    rfl

/-- A line that has more than hyphens. -/
theorem undivided_of_any {l : String} (h : OneLine l) (hany : l.toList.any (· != '-')) : Undivided l.toList := by
  refine undivided_of_line h fun he => ?_
  rw [he] at hany
  cases hany

theorem undivided_fixed {l : String} (h : '\n' ∉ l.toList ∧ l.toList.any (· != '-')) : Undivided l.toList :=
  undivided_of_any h.1 h.2

theorem undivided_line {lead rest : String} (h : '\n' ∉ lead.toList ∧ lead.toList.any (· != '-'))
    (hrest : OneLine rest) : Undivided (lead ++ rest).toList := by
  refine undivided_of_any (oneLine_append.2 ⟨h.1, hrest⟩) ?_
  rw [String.toList_append, List.any_append, h.2, Bool.true_or]

/-- What is fixed in a template as a key. -/
structure IsKey (key : String) : Prop where
  ink : Ink key.toList
  unmarked : looksLikeMarker key.toList = false
  short : key.utf8ByteSize ≤ 1024

theorem isKey_fixed (h : (key.toList.all isInkChar ∧ key ≠ "" ∧ key ≠ "-") ∧ looksLikeMarker key.toList = false ∧
    key.utf8ByteSize ≤ 1024) : IsKey key :=
  ⟨ink_fixed key h.1, h.2.1, h.2.2⟩

theorem IsKey.readsKey (h : IsKey key) : ReadsKey i key.toList .plain key := readsKey_word h.ink h.unmarked h.short

theorem IsKey.shown_line (h : IsKey key) (hcs : ∀ x ∈ cs, isShown x) (i : Nat) :
    ∀ x ∈ List.replicate i ' ' ++ (key.toList ++ ':' :: cs), isShown x :=
  List.forall_mem_append.2 ⟨shown_blanks i,
    List.forall_mem_append.2 ⟨h.ink.shown, List.forall_mem_cons.2 ⟨by decide, hcs⟩⟩⟩

theorem IsKey.undivided_line (h : IsKey key) (hcs : '\n' ∉ cs) (i : Nat) :
    Undivided (List.replicate i ' ' ++ (key.toList ++ ':' :: cs)) := by
  refine undivided_of_line ?_ fun he => ?_
  · simp [hcs, h.ink.feed_not_mem]
  · have hcolon : ':' ∈ ['-', '-', '-'] := he ▸ by simp
    exact absurd hcolon (by decide)

/-- The lines are the entries of a record at the column `i`. -/
structure EntriesAt (i : Nat) (ls : List String) (entries : List (Tree × Tree)) : Prop where
  ne_nil : ls ≠ []
  reads : ∃ cs, (joinLines ls).toList = List.replicate i ' ' ++ cs ∧ ReadsEntries i cs entries
  shown : ∀ x ∈ (joinLines ls).toList, isShown x
  undivided : Undivided (joinLines ls).toList

namespace EntriesAt

theorem append (h : EntriesAt i ls entries) (h' : EntriesAt i ls' more) :
    EntriesAt i (ls ++ ls') (entries ++ more) := by
  obtain ⟨cs, hcs, hread⟩ := h.reads
  obtain ⟨ds, hds, hread'⟩ := h'.reads
  have htext := toList_joinLines_append h.ne_nil h'.ne_nil
  refine ⟨List.append_ne_nil_of_left_ne_nil h.ne_nil ls', ⟨cs ++ (feed i ++ ds), ?_, hread.append hread'⟩, ?_, ?_⟩
  · rw [htext, hcs, hds, feed, List.append_assoc, List.cons_append]
  · rw [htext]
    exact List.forall_mem_append.2 ⟨h.shown, List.forall_mem_cons.2 ⟨by decide, h'.shown⟩⟩
  · rw [htext]
    exact undivided_append_feed.2 ⟨h.undivided, h'.undivided⟩

/-- A line with a key and its value. -/
theorem beside (key : String) (hline : line.toList = List.replicate i ' ' ++ (key.toList ++ ':' :: cs))
    (hkey : IsKey key) (hnode : ReadsNode i false cs t) (hcs : ∀ x ∈ cs, isShown x) (hfeed : '\n' ∉ cs) :
    EntriesAt i [line] [(word key, t)] where
  ne_nil := List.cons_ne_nil _ _
  reads := ⟨_, by rw [← hline]; simp [joinLines], .entry hkey.readsKey hnode⟩
  shown := by simpa [joinLines, hline] using hkey.shown_line hcs i
  undivided := by simpa [joinLines, hline] using hkey.undivided_line hfeed i

theorem fixed (key value : String)
    (hline : line.toList = List.replicate i ' ' ++ (key.toList ++ ':' :: ' ' :: value.toList))
    (hkey : IsKey key) (hvalue : Ink value.toList) : EntriesAt i [line] [(word key, word value)] :=
  beside key hline hkey (readsNode_word hvalue) (List.forall_mem_cons.2 ⟨by decide, hvalue.shown⟩)
    (by simpa using hvalue.feed_not_mem)

theorem word (key : String) {lead value : String}
    (hlead : lead.toList = List.replicate i ' ' ++ (key.toList ++ [':', ' ']))
    (hkey : IsKey key) (hvalue : Ink value.toList) : EntriesAt i [lead ++ value] [(word key, word value)] :=
  fixed key value (by rw [String.toList_append, hlead]; simp) hkey hvalue

theorem braces (key : String)
    (hline : line.toList = List.replicate i ' ' ++ (key.toList ++ [':', ' ', '\x7b', '\x7d'])) (hkey : IsKey key) :
    EntriesAt i [line] [(Template.word key, .record none [])] :=
  beside key hline hkey .braces (List.all_eq_true.1 (by decide)) (by decide)

/-- A line with a key, and lines below it that do not divide the text. -/
theorem above (key : String) (hline : line.toList = List.replicate i ' ' ++ (key.toList ++ [':'])) (hkey : IsKey key)
    (hne : ls ≠ []) (hshown : ∀ x ∈ (joinLines ls).toList, isShown x) (hundivided : Undivided (joinLines ls).toList)
    (hread : ReadsEntries i (key.toList ++ ':' :: '\n' :: (joinLines ls).toList) [(Template.word key, t)]) :
    EntriesAt i (line :: ls) [(Template.word key, t)] := by
  have htext : (joinLines (line :: ls)).toList =
      (List.replicate i ' ' ++ (key.toList ++ [':'])) ++ '\n' :: (joinLines ls).toList := by
    rw [toList_joinLines_cons line hne, hline]
    rfl
  refine ⟨List.cons_ne_nil _ _, ⟨_, ?_, hread⟩, ?_, ?_⟩
  · rw [htext]
    simp
  · rw [htext]
    exact List.forall_mem_append.2
      ⟨hkey.shown_line (List.forall_mem_nil _) i, List.forall_mem_cons.2 ⟨by decide, hshown⟩⟩
  · rw [htext]
    exact undivided_append_feed.2 ⟨hkey.undivided_line List.not_mem_nil i, hundivided⟩

theorem below (key : String) (hline : line.toList = List.replicate i ' ' ++ (key.toList ++ [':'])) (hkey : IsKey key)
    (h : EntriesAt k ls entries) (hk : i < k) :
    EntriesAt i (line :: ls) [(Template.word key, .record none entries)] := by
  obtain ⟨cs, hcs, hread⟩ := h.reads
  refine above key hline hkey h.ne_nil h.shown h.undivided ?_
  rw [hcs]
  exact .entry hkey.readsKey (.record_below hread hk)

/-- A list of one item, which starts in the line of its hyphen. -/
theorem item (key : String) {first dashed : String}
    (hline : line.toList = List.replicate i ' ' ++ (key.toList ++ [':'])) (hkey : IsKey key)
    (h : EntriesAt (k + 2) (first :: ls) entries) (hk : i < k)
    (hfirst : first.toList = List.replicate (k + 2) ' ' ++ cs)
    (hdashed : dashed.toList = List.replicate k ' ' ++ '-' :: ' ' :: cs) (hfeed : '\n' ∉ cs) :
    EntriesAt i (line :: dashed :: ls) [(Template.word key, .list none [.record none entries])] := by
  obtain ⟨ds, hds, hread⟩ := h.reads
  have htext : ds = cs ++ (joinLines ("" :: ls)).toList := by
    rw [toList_joinLines_head, hfirst, List.append_assoc] at hds
    exact (List.append_cancel_left hds).symm
  have hshown := h.shown
  have hbelow : (joinLines (dashed :: ls)).toList = List.replicate k ' ' ++ '-' :: ' ' :: ds := by
    rw [toList_joinLines_head, hdashed, htext]
    simp
  refine above key hline hkey (List.cons_ne_nil _ _) ?_ ?_ ?_
  · rw [hds] at hshown
    rw [hbelow]
    exact List.forall_mem_append.2 ⟨shown_blanks k, List.forall_mem_cons.2 ⟨by decide, List.forall_mem_cons.2
      ⟨by decide, (List.forall_mem_append.1 hshown).2⟩⟩⟩
  · have hdivided : Undivided dashed.toList := by
      rw [hdashed]
      refine undivided_of_line (by simp [hfeed]) fun he => ?_
      have hblank : ' ' ∈ ['-', '-', '-'] := he ▸ by simp
      exact absurd hblank (by decide)
    obtain rfl | hne := eq_or_ne ls []
    · simpa [joinLines] using hdivided
    · have hrest := h.undivided
      rw [toList_joinLines_cons _ hne] at hrest ⊢
      exact undivided_append_feed.2 ⟨hdivided, (undivided_append_feed.1 hrest).2⟩
  · rw [hbelow]
    exact .entry hkey.readsKey (.list_below (.one (.record_inline hread)) hk)

theorem missing (key : String) (hline : line.toList = List.replicate i ' ' ++ (key.toList ++ [':']))
    (hkey : IsKey key) (hne : ls ≠ [])
    (hshown : ∀ x ∈ (joinLines ls).toList, isShown x) (hundivided : Undivided (joinLines ls).toList)
    (hgap : ∀ j, Gap ('\n' :: (joinLines ls).toList ++ feed j) j) :
    EntriesAt i (line :: ls) [(Template.word key, Template.word "")] :=
  above key hline hkey hne hshown hundivided (.missing hkey.readsKey hgap)

/-- A value in its block. -/
theorem yamlBlock {ms : List (String × Json)} (hne : ms ≠ []) (hv : (Json.obj ms).Lined) (hi : 0 < i) :
    EntriesAt i [Schema.yamlBlock (.obj ms) i] (Json.treesOfMembers ms) := by
  have htext : (joinLines [Schema.yamlBlock (.obj ms) i]).toList = List.replicate i ' ' ++ membersText i i [] ms := by
    rw [← Schema.toList_yamlBlock hne hv]
    simp [joinLines]
  refine ⟨List.cons_ne_nil _ _, ⟨_, htext, readsEntries_membersText hne hv (Nat.le_refl i)⟩, ?_, ?_⟩
  · rw [htext]
    exact List.forall_mem_append.2 ⟨shown_blanks i, shown_membersText ms i i [] (List.forall_mem_nil _)⟩
  · have hblock : joinLines [Schema.yamlBlock (.obj ms) i] = Schema.yamlBlock (.obj ms) i :=
      String.intercalate_singleton
    rw [hblock, Schema.yamlBlock, ← joinLines_eq]
    refine undivided_joinLines fun l hl => ?_
    obtain ⟨m, hm, rfl⟩ := List.mem_map.1 hl
    have hblank : ' ' ∈ List.replicate i ' ' := List.mem_replicate.2 ⟨Nat.ne_of_gt hi, rfl⟩
    refine undivided_of_line (oneLine_append.2 ⟨by simp, oneLine_of_mem_lines hm⟩) fun he => ?_
    have hhyphens : ' ' ∈ ['-', '-', '-'] := he ▸ by simp [hblank]
    exact absurd hhyphens (by decide)

end EntriesAt

theorem endsInk_joinLines {l : String} (ls : List String) (h : EndsInk l.toList) :
    EndsInk (joinLines (ls ++ [l])).toList := by
  obtain ⟨cs, hcs⟩ := exists_toList_joinLines ls l
  rw [hcs]
  exact h.append cs

/-- A line feed at the end is put behind what a text ends with. -/
theorem withOneNewline_append {s t : String} {x : Char} (hx : x ∈ t.toList) (h : ¬isEndBlank x) :
    withOneNewline (s ++ t) = s ++ withOneNewline t := by
  rw [withOneNewline, dropEnd_append, if_neg (dropEnd_ne_empty hx h), withOneNewline, String.append_assoc]

/-- A text that ends with a character is left as it is, with a line feed behind it. -/
theorem toList_withOneNewline {s : String} (h : EndsInk s.toList) (hs : ∀ x ∈ s.toList, isShown x) :
    (withOneNewline s).toList = s.toList ++ ['\n'] := by
  obtain ⟨init, x, hcs, hblank, hfeed⟩ := h
  have hshown : isShown x := hs x (by simp [hcs])
  have hend : ¬isEndBlank x := by
    simp only [isEndBlank, Bool.or_eq_true, beq_iff_eq]
    rintro (((rfl | rfl) | rfl) | rfl)
    · exact hfeed rfl
    · exact absurd hshown (by decide)
    · exact hblank rfl
    · exact absurd hshown (by decide)
  have hreverse : s.toList.reverse = x :: init.reverse := by rw [hcs, List.reverse_append]; rfl
  rw [withOneNewline, dropEnd, hreverse, List.dropWhile_cons_of_neg hend, ← hreverse, List.reverse_reverse,
    String.ofList_toList, String.toList_append]
  rfl

/-- Lines of a record as a document. -/
theorem EntriesAt.readTree_eq {s : String} (h : EntriesAt 0 ls entries)
    (hs : s.toList = (joinLines ls).toList ++ ['\n'])
    (ha : (Tree.record none entries).aliases = 0) (hd : (Tree.record none entries).depth ≤ 128) :
    readTree s = some (.record none entries) := by
  obtain ⟨cs, hcs, hread⟩ := h.reads
  obtain rfl : (joinLines ls).toList = cs := hcs
  rw [hread.readTree_eq hs h.shown ha, if_pos hd]

end Template

end OperatorScaffold

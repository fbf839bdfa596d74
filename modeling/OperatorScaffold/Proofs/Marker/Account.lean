import OperatorScaffold.Proofs.Marker.Reading
import OperatorScaffold.Proofs.Marker.Unmarked
/-!
What is read of a text with regions. It is told from the end of the text, region by region.
-/

namespace OperatorScaffold.Marker

open Text

/-- What is told of a region: its name, its scope and its body. -/
abbrev Account := String × Scope × String

def Region.account (r : Region) : Account := (r.name, r.scope, String.join r.body)

variable {ls more body : List String} {seen : List String} {rs : List Account} {l m : List Char}
  {d : Delimiter} {scope : Scope} {s name opening closing : String}

theorem Document.regions_consLine (l : String) (d : Document) : (consLine l d).regions = d.regions := by
  cases d with
  | nil => rfl
  | cons s d => cases s <;> rfl

theorem Delimiter.Says.append_feed {pre comment mid post : List Char} (h : d.Says l pre comment mid post) :
    d.Says (l ++ ['\n']) pre comment mid (post ++ ['\n']) where
  eq := by simp only [h.eq, List.append_assoc]
  comment := h.comment
  pre := h.pre
  mid := h.mid
  post := List.forall_mem_append.2 ⟨h.post, List.forall_mem_singleton.2 (by decide)⟩
  name := h.name

theorem delimiter?_append_feed (h : delimiter? s = some d) : delimiter? (s ++ "\n") = some d := by
  rw [← String.ofList_toList (s := s)] at h
  obtain ⟨_, _, _, _, hs⟩ := says_of_delimiter? h
  rw [← hs.append_feed.delimiter?_eq, String.ofList_append, String.ofList_toList]

/-- The texts with a line feed behind each, cut into lines. -/
def closedLines (ls : List String) : List String :=
  (chunks (String.join (ls.map (· ++ "\n"))).toList).map .ofList

theorem closedLines_cons (s : String) (ls : List String) :
    closedLines (s :: ls) = (chunks (s.toList ++ ['\n'])).map .ofList ++ closedLines ls := by
  have hfeed : "\n".toList = ['\n'] := rfl
  rw [closedLines, List.map_cons, String.join_cons, String.toList_append, String.toList_append, hfeed,
    List.append_assoc, List.singleton_append, chunks_append_feed, List.map_append]
  rfl

theorem closedLines_append (ls more : List String) :
    closedLines (ls ++ more) = closedLines ls ++ closedLines more := by
  induction ls with
  | nil => rfl
  | cons s ls ih => rw [List.cons_append, closedLines_cons, closedLines_cons, ih, List.append_assoc]

theorem closedLines_of_oneLine (h : OneLine s) (ls : List String) :
    closedLines (s :: ls) = (s ++ "\n") :: closedLines ls := by
  rw [closedLines_cons, chunks_line_append h]
  rw [chunks, List.map_singleton, List.singleton_append, String.ofList_append, String.ofList_toList]

theorem join_closedLines (ls : List String) : String.join (closedLines ls) = String.join (ls.map (· ++ "\n")) := by
  refine String.toList_injective ?_
  rw [closedLines, String.toList_join, List.flatMap_map]
  simpa [List.flatMap] using flatten_chunks (String.join (ls.map (· ++ "\n"))).toList

theorem delimiter?_closedLines (h : ∀ s ∈ ls, Unmarked s.toList) : ∀ l ∈ closedLines ls, delimiter? l = none := by
  induction ls with
  | nil => nofun
  | cons s ls ih =>
    have ⟨hs, hls⟩ := List.forall_mem_cons.1 h
    rw [closedLines_cons]
    refine List.forall_mem_append.2 ⟨fun l hl => ?_, ih hls⟩
    obtain ⟨cs, hcs, rfl⟩ := List.mem_map.1 hl
    exact unmarked_concat_feed.2 hs cs hcs

/-- Wherever they start, and with regions of the names that are seen in front of them, these texts give
these regions. -/
def Reads (seen ls : List String) (rs : List Account) : Prop :=
  ∀ n, ∃ d, Document.outside seen n (closedLines ls) = .ok d ∧ d.regions.map Region.account = rs

namespace Reads

theorem nil : Reads seen [] [] := fun _ => ⟨[], rfl, rfl⟩

theorem text (hls : ∀ s ∈ ls, Unmarked s.toList) (h : Reads seen more rs) : Reads seen (ls ++ more) rs := by
  have hnone := delimiter?_closedLines hls
  unfold Reads
  rw [closedLines_append]
  generalize closedLines ls = lines at hnone
  induction lines with
  | nil => exact h
  | cons l lines ih =>
    have ⟨hl, hlines⟩ := List.forall_mem_cons.1 hnone
    intro n
    obtain ⟨d, hd, hrs⟩ := ih hlines (n + 1)
    refine ⟨Document.consLine l d, ?_, by rw [Document.regions_consLine, hrs]⟩
    simp only [List.cons_append, Document.outside, hl, hd]
    rfl

theorem line (hs : Unmarked s.toList) (h : Reads seen more rs) : Reads seen (s :: more) rs := by
  have hread := text (List.forall_mem_singleton.2 hs) h
  exact hread

theorem region (ho : delimiter? opening = some ⟨scope, .opening, name⟩) (hol : OneLine opening)
    (hb : ∀ s ∈ body, Unmarked s.toList) (hc : delimiter? closing = some ⟨scope, .closing, name⟩)
    (hcl : OneLine closing) (hn : name ∉ seen) (hls : ls = opening :: (body ++ closing :: more))
    (h : Reads (name :: seen) more rs) :
    Reads seen ls ((name, scope, String.join (body.map (· ++ "\n"))) :: rs) := by
  subst hls
  intro n
  obtain ⟨d, hd, rfl⟩ := h (n + 1 + (closedLines body).length + 1)
  refine ⟨.region ⟨name, scope, opening ++ "\n", closedLines body, closing ++ "\n", n⟩ :: d, ?_, ?_⟩
  · rw [closedLines_of_oneLine hol, closedLines_append, closedLines_of_oneLine hcl]
    simp only [Document.outside, delimiter?_append_feed ho, hn, if_false]
    exact Document.inside_eq_ok_iff.2 ⟨_, _, _, d, rfl, delimiter?_closedLines hb,
      delimiter?_append_feed hc, hd, rfl⟩
  · rw [← join_closedLines]
    rfl

theorem parse (h : Reads [] ls rs) : ∃ d, Document.parse (String.join (ls.map (· ++ "\n"))) = .ok d ∧
    d.regions.map Region.account = rs :=
  h 1

end Reads

/-- A text without marker lines is read without a region. -/
theorem Unmarked.parse (h : Unmarked s.toList) : ∃ d, Document.parse (s ++ "\n") = .ok d ∧ d.regions = [] := by
  have hs : Reads [] ([s] ++ []) [] := .text (by simpa using h) .nil
  obtain ⟨d, hd, hrs⟩ := hs.parse
  exact ⟨d, by simpa using hd, List.map_eq_nil_iff.1 hrs⟩

end OperatorScaffold.Marker

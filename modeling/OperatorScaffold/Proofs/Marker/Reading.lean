import OperatorScaffold.Marker.Document
import OperatorScaffold.Proofs.Failure
import OperatorScaffold.Proofs.Text.Chunks
/-!
What reading a marked text gives. The documents that come from texts are the well-formed ones whose
regions carry the numbers of their lines, and a well-formed document is found again in its lines.
-/

namespace OperatorScaffold.Marker

open Text

def Segment.isText : Segment → Bool
  | .text _ => true
  | .region _ => false

/-- The marker lines say what the region says, and the body has none. -/
structure Region.WellFormed (r : Region) : Prop where
  opening : delimiter? r.opening = some ⟨r.scope, .opening, r.name⟩
  body : ∀ l ∈ r.body, delimiter? l = none
  closing : delimiter? r.closing = some ⟨r.scope, .closing, r.name⟩

namespace Document

/-- Texts are not empty and stand alone, and no region has a name of `seen` or of one before. -/
inductive WellFormed : List String → Document → Prop
  | nil {seen : List String} : WellFormed seen []
  | text {seen ls : List String} {d : Document} : ls ≠ [] → (∀ l ∈ ls, delimiter? l = none) →
      d.head?.any Segment.isText = false → WellFormed seen d → WellFormed seen (.text ls :: d)
  | region {seen : List String} {r : Region} {d : Document} : r.name ∉ seen → r.WellFormed →
      WellFormed (r.name :: seen) d → WellFormed seen (.region r :: d)

/-- The document with the numbers of lines that its regions have when it starts at line `n`. -/
def numbered (n : Nat) : Document → Document
  | [] => []
  | .text ls :: d => .text ls :: numbered (n + ls.length) d
  | .region r :: d => .region { r with line := n } :: numbered (n + r.body.length + 2) d

@[simp] theorem lines_nil : lines [] = [] := rfl

@[simp] theorem lines_cons (s : Segment) (d : Document) : lines (s :: d) = s.lines ++ lines d := rfl

@[simp] theorem numbered_numbered (n m : Nat) (d : Document) :
    numbered n (numbered m d) = numbered n d := by
  induction d generalizing n m with
  | nil => rfl
  | cons s d ih => cases s <;> simp [numbered, ih]

@[simp] theorem lines_numbered (n : Nat) (d : Document) : (numbered n d).lines = d.lines := by
  induction d generalizing n with
  | nil => rfl
  | cons s d ih => cases s <;> simp [numbered, ih, Segment.lines, Region.lines]

@[simp] theorem head?_numbered_isText (n : Nat) (d : Document) :
    (numbered n d).head?.any Segment.isText = d.head?.any Segment.isText := by
  cases d with
  | nil => rfl
  | cons s d => cases s <;> rfl

@[simp] theorem lines_consLine (l : String) (d : Document) : (consLine l d).lines = l :: d.lines := by
  cases d with
  | nil => rfl
  | cons s d => cases s <;> rfl

theorem numbered_consLine (n : Nat) (l : String) (d : Document) :
    numbered n (consLine l d) = consLine l (numbered (n + 1) d) := by
  cases d with
  | nil => rfl
  | cons s d => cases s <;> simp [consLine, numbered, Nat.add_assoc, Nat.add_comm 1]

theorem WellFormed.consLine {seen : List String} {l : String} {d : Document}
    (hl : delimiter? l = none) (h : WellFormed seen d) : WellFormed seen (consLine l d) := by
  cases h with
  | nil => exact .text (by simp) (by simpa using hl) (by simp) .nil
  | text hne hls hd h => exact .text (by simp) (List.forall_mem_cons.2 ⟨hl, hls⟩) hd h
  | region hr hw h => exact .text (by simp) (by simpa using hl) (by simp [Segment.isText]) (.region hr hw h)

theorem inside_cons_of_none {seen : List String} {n : Nat} {r : Region} {l : String} {ls : List String}
    (hl : delimiter? l = none) :
    inside seen n r (l :: ls) = inside seen (n + 1) { r with body := r.body ++ [l] } ls := by
  simp only [inside, hl]

/-- A marker line inside of a region is the one that closes it. -/
theorem inside_cons_eq_ok_iff {seen : List String} {n : Nat} {r : Region} {l : String} {ls : List String}
    {d : Document} {m : Delimiter} (hl : delimiter? l = some m) :
    inside seen n r (l :: ls) = .ok d ↔ m = ⟨r.scope, .closing, r.name⟩ ∧
      ∃ d', outside seen (n + 1) ls = .ok d' ∧ d = .region { r with closing := l } :: d' := by
  obtain ⟨scope, side, name⟩ := m
  rw [inside, hl]
  cases side with
  | opening => simp
  | closing =>
    by_cases hn : r.name = name
    · by_cases hs : r.scope = scope
      · subst hn hs
        simp only [ne_eq, not_true_eq_false, if_false, bind_eq_ok, pure_eq_ok, true_and]
        exact exists_congr fun d' => and_congr_right' eq_comm
      · simp [hn, hs, Ne.symm hs]
    · simp [hn, Ne.symm hn]

/-- Lines up to a marker line are cut off in one way only. -/
theorem of_first_delimiter {l closing : String} {ls body rest : List String} (hl : (delimiter? l).isSome)
    (hb : ∀ x ∈ body, delimiter? x = none) (h : l :: ls = body ++ closing :: rest) :
    body = [] ∧ closing = l ∧ rest = ls := by
  cases body with
  | nil => simpa [eq_comm] using h
  | cons b body =>
    obtain ⟨rfl, -⟩ := List.cons.inj h
    simp [hb l List.mem_cons_self] at hl

/-- From inside a region reading goes on to its closing line. -/
theorem inside_eq_ok_iff {seen : List String} {n : Nat} {r : Region} {ls : List String} {d : Document} :
    inside seen n r ls = .ok d ↔ ∃ body closing rest d', ls = body ++ closing :: rest ∧
      (∀ l ∈ body, delimiter? l = none) ∧ delimiter? closing = some ⟨r.scope, .closing, r.name⟩ ∧
      outside seen (n + body.length + 1) rest = .ok d' ∧
      d = .region { r with body := r.body ++ body, closing } :: d' := by
  induction ls generalizing n r with
  | nil => simp [inside]
  | cons l ls ih =>
    cases hl : delimiter? l with
    | none =>
      rw [inside_cons_of_none hl, ih]
      constructor
      · rintro ⟨body, closing, rest, d', rfl, hb, hc, hd, rfl⟩
        refine ⟨l :: body, closing, rest, d', rfl, by simpa [hl] using hb, hc, ?_, by simp⟩
        rw [← hd, List.length_cons, Nat.add_right_comm n, ← Nat.add_assoc]
      · rintro ⟨body, closing, rest, d', e, hb, hc, hd, rfl⟩
        cases body with
        | nil =>
          obtain ⟨rfl, rfl⟩ := List.cons.inj e
          simp [hl] at hc
        | cons b body =>
          obtain ⟨rfl, rfl⟩ := List.cons.inj e
          refine ⟨body, closing, rest, d', rfl, fun x hx => hb x (by simp [hx]), hc, ?_, by simp⟩
          rw [← hd, List.length_cons, Nat.add_right_comm n, ← Nat.add_assoc]
    | some m =>
      rw [inside_cons_eq_ok_iff hl]
      constructor
      · rintro ⟨rfl, d', hd, rfl⟩
        exact ⟨[], l, ls, d', rfl, nofun, hl, hd, by rw [List.append_nil]⟩
      · rintro ⟨body, closing, rest, d', e, hb, hc, hd, rfl⟩
        obtain ⟨rfl, rfl, rfl⟩ := of_first_delimiter (Option.isSome_of_eq_some hl) hb e
        rw [hl] at hc
        exact ⟨Option.some.inj hc, d', hd, by rw [List.append_nil]⟩

theorem wellFormed_of_outside {seen : List String} {n : Nat} {ls : List String} {d : Document}
    (h : outside seen n ls = .ok d) : WellFormed seen d ∧ numbered n d = d ∧ d.lines = ls := by
  -- on the number of lines, since a region takes several of them at once
  induction hk : ls.length using Nat.strongRecOn generalizing seen n ls d with
  | ind k ih =>
    cases ls with
    | nil =>
      cases h
      exact ⟨.nil, rfl, rfl⟩
    | cons l ls =>
      rw [outside] at h
      split at h
      next hl =>
        obtain ⟨d', hd, h⟩ := bind_eq_ok.1 h
        obtain rfl := pure_eq_ok.1 h
        obtain ⟨hw, hn, rfl⟩ := ih ls.length (by simp [← hk]) hd rfl
        exact ⟨hw.consLine hl, by rw [numbered_consLine, hn], by simp⟩
      next => cases h
      next scope name hl =>
        split at h
        next => cases h
        next hs =>
          obtain ⟨body, closing, rest, d', rfl, hb, hc, hd, rfl⟩ := inside_eq_ok_iff.1 h
          obtain ⟨hw, hn, rfl⟩ := ih rest.length (by simp [← hk]; omega) hd rfl
          refine ⟨.region hs ⟨hl, by simpa using hb, hc⟩ hw, ?_, by simp [Segment.lines, Region.lines]⟩
          have e : n + body.length + 2 = n + 1 + body.length + 1 := by omega
          simp [numbered, e, hn]

theorem outside_append {seen : List String} {n : Nat} {ls rest : List String} {d : Document}
    (hne : ls ≠ []) (hls : ∀ l ∈ ls, delimiter? l = none) (hd : d.head?.any Segment.isText = false)
    (h : outside seen (n + ls.length) rest = .ok d) :
    outside seen n (ls ++ rest) = .ok (.text ls :: d) := by
  induction ls generalizing n with
  | nil => exact absurd rfl hne
  | cons l ls ih =>
    have ⟨hl, hls⟩ := List.forall_mem_cons.1 hls
    simp only [List.cons_append, outside, hl, bind_eq_ok, pure_eq_ok]
    cases ls with
    | nil =>
      refine ⟨d, h, ?_⟩
      cases d with
      | nil => rfl
      | cons s d =>
        cases s with
        | text => simp [Segment.isText] at hd
        | region => rfl
    | cons m ms =>
      refine ⟨.text (m :: ms) :: d, ih (by simp) hls ?_, rfl⟩
      rw [← h]
      congr 1
      simp only [List.length_cons]
      omega

theorem WellFormed.outside_lines {seen : List String} {d : Document} (h : WellFormed seen d) (n : Nat) :
    outside seen n d.lines = .ok (numbered n d) := by
  induction h generalizing n with
  | nil => rfl
  | text hne hls hd _ ih =>
    exact outside_append hne hls (by simpa using hd) (ih _)
  | @region seen r d hr hw _ ih =>
    simp only [lines_cons, Segment.lines, Region.lines, List.cons_append, outside, hw.opening, hr,
      if_false, List.append_assoc]
    refine inside_eq_ok_iff.2 ⟨r.body, r.closing, d.lines, _, rfl, hw.body, hw.closing, ih _, ?_⟩
    have e : n + 1 + r.body.length + 1 = n + r.body.length + 2 := by omega
    simp [numbered, e]

theorem outside_eq_ok_iff {seen : List String} {n : Nat} {ls : List String} {d : Document} :
    outside seen n ls = .ok d ↔ WellFormed seen d ∧ numbered n d = d ∧ d.lines = ls := by
  refine ⟨wellFormed_of_outside, ?_⟩
  rintro ⟨hw, hn, rfl⟩
  rw [hw.outside_lines, hn]

/-- The documents that texts are read as. -/
theorem parse_eq_ok_iff {text : String} {d : Document} : parse text = .ok d ↔
    WellFormed [] d ∧ numbered 1 d = d ∧ Chunked d.lines ∧ d.render = text := by
  simp only [parse, ofLines, outside_eq_ok_iff]
  constructor
  · rintro ⟨hw, hn, hl⟩
    refine ⟨hw, hn, hl ▸ .of_chunks _, String.toList_injective ?_⟩
    rw [render, String.toList_join, hl, List.flatMap_map]
    simpa [List.flatMap] using flatten_chunks text.toList
  · rintro ⟨hw, hn, hc, rfl⟩
    exact ⟨hw, hn, hc.chunks_join.symm⟩

theorem WellFormed.parse_render {d : Document} (hw : WellFormed [] d) (hc : Chunked d.lines) :
    parse d.render = .ok (numbered 1 d) := by
  simp only [parse, ofLines, render, hc.chunks_join]
  exact hw.outside_lines 1

end Document

end OperatorScaffold.Marker

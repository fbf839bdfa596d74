import OperatorScaffold.Proofs.Marker.Delimiter
import OperatorScaffold.Proofs.Marker.Reading
import OperatorScaffold.Proofs.Text.Lines
/-!
The grammar of marked texts. Only the marker lines count: each that opens a region stands right
before the one that closes it, and no two regions share a name. The reading is told what is wrong
by the first marker line that no text could go on behind.
-/

namespace OperatorScaffold.Marker

open Text

/-- The characters that a line may end with. -/
def isLineEnd (c : Char) : Bool := c == '\n' || c == '\r'

namespace Delimiter

/-- What a line says without the characters at its end. -/
def Written (d : Delimiter) (line : String) : Prop :=
  ∃ pre comment mid post, d.Says (dropEnd isLineEnd line).toList pre comment mid post

def closed (d : Delimiter) : Delimiter := { d with side := .closing }

/-- The marker lines of one region. -/
def pair (region : String × Scope) : List Delimiter :=
  [⟨region.2, .opening, region.1⟩, ⟨region.2, .closing, region.1⟩]

/-- The marker lines of regions, no two of which share a name, and none has one of `seen`. -/
def Paired (seen : List String) (ds : List Delimiter) : Prop :=
  ∃ regions : List (String × Scope), (regions.map (·.1)).Nodup ∧ (∀ r ∈ regions, r.1 ∉ seen) ∧
    ds = regions.flatMap pair

/-- Marker lines that others can follow, so that all together are those of regions. -/
def Viable (seen : List String) (ds : List Delimiter) : Prop := ∃ more, Paired seen (ds ++ more)

/-- The region that is open behind marker lines. -/
def open? (ds : List Delimiter) : Option Delimiter := ds.getLast?.filter (·.side = .opening)

/-- What is wrong with a marker line that cannot stand where it does. -/
def blame : Option Delimiter → Nat → Delimiter → Error
  | some outer, n, ⟨_, .opening, name⟩ => .nested outer.name name n
  | none, n, ⟨_, .opening, name⟩ => .duplicate name n
  | none, n, ⟨_, .closing, name⟩ => .unexpectedEnd name n
  | some outer, n, ⟨scope, .closing, name⟩ =>
    if outer.name ≠ name then .mismatchedEnd outer.name name n
    else .scopeMismatch outer.name outer.scope scope n

/-- What is wrong with marker lines that are not those of regions: it is the first one that none could
follow any more, or else that the last region is left open. -/
inductive Broken (seen : List String) : List (Nat × Delimiter) → Error → Prop
  | line {before n m after} : Viable seen (before.map (·.2)) → ¬Viable seen (before.map (·.2) ++ [m]) →
      Broken seen (before ++ (n, m) :: after) (blame (open? (before.map (·.2))) n m)
  | unclosed {before n m} : m.side = .opening → Paired seen (before.map (·.2) ++ [m, m.closed]) →
      Broken seen (before ++ [(n, m)]) (.unclosed m.name n)

end Delimiter

open Delimiter

/-- The marker lines among lines the first of which has the number `n`, with their numbers. -/
def marksFrom (n : Nat) (ls : List String) : List (Nat × Delimiter) :=
  (ls.zipIdx n).filterMap fun (l, i) => (delimiter? l).map (i, ·)

def marks (text : String) : List (Nat × Delimiter) := marksFrom 1 ((chunks text.toList).map .ofList)

variable {seen : List String} {n : Nat} {l : String} {ls : List String} {ds : List Delimiter}
  {d m : Delimiter} {r : Region} {e : Error}

theorem delimiter?_append_blanks {s bs : String} (hb : ∀ c ∈ bs.toList, isBlank c) :
    delimiter? (s ++ bs) = delimiter? s := by
  cases h : delimiter? s with
  | none =>
    have hs : Silent s.toList := by rwa [Silent, String.ofList_toList]
    have happend : Silent (s.toList ++ bs.toList) := (silent_append_blanks hb).2 hs
    rwa [Silent, String.ofList_append, String.ofList_toList, String.ofList_toList] at happend
  | some d =>
    rw [← String.ofList_toList (s := s)] at h
    obtain ⟨pre, comment, mid, post, hs⟩ := says_of_delimiter? h
    have happend : d.Says (s.toList ++ bs.toList) pre comment mid (post ++ bs.toList) :=
      { hs with
        eq := by simp only [hs.eq, List.append_assoc]
        post := List.forall_mem_append.2 ⟨hs.post, hb⟩ }
    rw [← happend.delimiter?_eq, String.ofList_append, String.ofList_toList, String.ofList_toList]

/-- The marker lines are the lines that are written like one. -/
theorem delimiter?_eq_some_iff : delimiter? l = some d ↔ d.Written l := by
  obtain ⟨bs, hbs, hl⟩ := exists_toList_dropEnd isLineEnd l
  have hdrop : delimiter? l = delimiter? (dropEnd isLineEnd l) := by
    have hsplit : l = dropEnd isLineEnd l ++ .ofList bs := String.toList_injective (by simpa using hl)
    conv_lhs => rw [hsplit]
    refine delimiter?_append_blanks fun c hc => ?_
    have hc := hbs c (by simpa using hc)
    simp only [isLineEnd, Bool.or_eq_true, beq_iff_eq] at hc
    obtain rfl | rfl := hc <;> decide
  rw [hdrop]
  constructor
  · intro h
    rw [← String.ofList_toList (s := dropEnd isLineEnd l)] at h
    exact says_of_delimiter? h
  · rintro ⟨pre, comment, mid, post, hs⟩
    rw [← String.ofList_toList (s := dropEnd isLineEnd l)]
    exact hs.delimiter?_eq

/-!
The reading of a text goes wrong as that of its marker lines alone.
-/

/-- What is wrong with marker lines, where regions have the names of `seen` and one may be open. -/
def fault? (seen : List String) : Option (Nat × Delimiter) → List (Nat × Delimiter) → Option Error
  | none, [] => none
  | some (k, o), [] => some (.unclosed o.name k)
  | none, (n, m) :: ds =>
    if m.side = .opening ∧ m.name ∉ seen then fault? (m.name :: seen) (some (n, m)) ds
    else some (blame none n m)
  | some (_, o), (n, m) :: ds => if m = o.closed then fault? seen none ds else some (blame (some o) n m)

/-- The marker line that opens a region. -/
def Region.mark (r : Region) : Delimiter := ⟨r.scope, .opening, r.name⟩

theorem marksFrom_cons_none (hl : delimiter? l = none) : marksFrom n (l :: ls) = marksFrom (n + 1) ls := by
  simp [marksFrom, hl]

theorem marksFrom_cons_some (hl : delimiter? l = some d) :
    marksFrom n (l :: ls) = (n, d) :: marksFrom (n + 1) ls := by
  simp [marksFrom, hl]

namespace Document

theorem error_iff_fault? (ls : List String) :
    (∀ seen n e, outside seen n ls = .error e ↔ fault? seen none (marksFrom n ls) = some e) ∧
      ∀ seen n r e, inside seen n r ls = .error e ↔
        fault? seen (some (r.line, r.mark)) (marksFrom n ls) = some e := by
  induction ls with
  | nil =>
    refine ⟨fun seen n e => ?_, fun seen n r e => ?_⟩
    · simp [outside, marksFrom, fault?]
    · simp [inside, marksFrom, fault?, Region.mark]
  | cons l ls ih =>
    obtain ⟨houtside, hinside⟩ := ih
    cases hl : delimiter? l with
    | none =>
      refine ⟨fun seen n e => ?_, fun seen n r e => ?_⟩
      · rw [marksFrom_cons_none hl, ← houtside]
        simp [outside, hl, map_eq_error]
      · rw [marksFrom_cons_none hl]
        simp only [inside, hl]
        exact hinside ..
    | some m =>
      obtain ⟨scope, side, name⟩ := m
      refine ⟨fun seen n e => ?_, fun seen n r e => ?_⟩ <;> rw [marksFrom_cons_some hl]
      · cases side with
        | closing => simp [outside, hl, fault?, blame]
        | opening =>
          by_cases hs : name ∈ seen
          · simp [outside, hl, fault?, blame, hs]
          · simpa [outside, hl, fault?, hs, Region.mark] using
              hinside (name :: seen) (n + 1) ⟨name, scope, l, [], "", n⟩ e
      · cases side with
        | opening => simp [inside, hl, fault?, blame, Region.mark, closed]
        | closing =>
          by_cases hn : r.name = name
          · by_cases hs : r.scope = scope
            · subst hn hs
              simp [inside, hl, fault?, Region.mark, closed, map_eq_error, houtside]
            · simp [inside, hl, fault?, blame, Region.mark, closed, hn, hs, Ne.symm hs]
          · simp [inside, hl, fault?, blame, Region.mark, closed, hn, Ne.symm hn]

theorem parse_eq_error_iff {text : String} : parse text = .error e ↔ fault? [] none (marks text) = some e :=
  (error_iff_fault? _).1 [] 1 e

end Document

namespace Delimiter

variable {o : Delimiter}

theorem paired_nil : Paired seen [] := ⟨[], .nil, nofun, rfl⟩

theorem not_paired_singleton : ¬Paired seen [o] := by
  rintro ⟨_ | ⟨r, regions⟩, -, -, h⟩ <;> cases h

theorem paired_cons_cons : Paired seen (o :: m :: ds) ↔
    o.side = .opening ∧ o.name ∉ seen ∧ m = o.closed ∧ Paired (o.name :: seen) ds := by
  constructor
  · rintro ⟨_ | ⟨⟨name, scope⟩, regions⟩, hnodup, hseen, h⟩
    · cases h
    · simp only [List.flatMap_cons, pair, List.cons_append, List.nil_append, List.cons.injEq] at h
      obtain ⟨rfl, rfl, rfl⟩ := h
      obtain ⟨hname, hnodup⟩ := List.nodup_cons.1 hnodup
      obtain ⟨hfresh, hseen⟩ := List.forall_mem_cons.1 hseen
      refine ⟨rfl, hfresh, rfl, regions, hnodup, fun r hr => ?_, rfl⟩
      rw [List.mem_cons, not_or]
      exact ⟨fun heq => hname (List.mem_map.2 ⟨r, hr, heq⟩), hseen r hr⟩
  · obtain ⟨scope, side, name⟩ := o
    rintro ⟨rfl, hfresh, rfl, regions, hnodup, hseen, rfl⟩
    refine ⟨(name, scope) :: regions, List.nodup_cons.2 ⟨fun hmem => ?_, hnodup⟩,
      List.forall_mem_cons.2 ⟨hfresh, fun r hr hs => hseen r hr (List.mem_cons_of_mem _ hs)⟩, rfl⟩
    obtain ⟨r, hr, rfl⟩ := List.mem_map.1 hmem
    exact hseen r hr List.mem_cons_self

theorem viable_nil : Viable seen [] := ⟨[], paired_nil⟩

theorem viable_singleton : Viable seen [o] ↔ o.side = .opening ∧ o.name ∉ seen := by
  constructor
  · rintro ⟨_ | ⟨m, more⟩, h⟩
    · exact absurd h not_paired_singleton
    · obtain ⟨hside, hfresh, -, -⟩ := paired_cons_cons.1 h
      exact ⟨hside, hfresh⟩
  · rintro ⟨hside, hfresh⟩
    exact ⟨[o.closed], paired_cons_cons.2 ⟨hside, hfresh, rfl, paired_nil⟩⟩

theorem viable_cons_cons : Viable seen (o :: m :: ds) ↔
    o.side = .opening ∧ o.name ∉ seen ∧ m = o.closed ∧ Viable (o.name :: seen) ds := by
  simp only [Viable, List.cons_append, paired_cons_cons, exists_and_left]

theorem open?_singleton (ho : o.side = .opening) : open? [o] = some o := by simp [open?, ho]

theorem open?_cons_cons (hm : m.side = .closing) : open? (o :: m :: ds) = open? ds := by
  cases ds with
  | nil => simp [open?, hm]
  | cons d ds => simp [open?]

/-- A region in front changes nothing of what is wrong behind it. -/
theorem broken_cons_cons {k n : Nat} {ms : List (Nat × Delimiter)} (hside : o.side = .opening)
    (hfresh : o.name ∉ seen) (h : Broken (o.name :: seen) ms e) :
    Broken seen ((k, o) :: (n, o.closed) :: ms) e := by
  cases h with
  | @line before n' m after hviable hnot =>
    rw [← open?_cons_cons (o := o) (m := o.closed) rfl]
    refine @Broken.line seen ((k, o) :: (n, o.closed) :: before) n' m after ?_ ?_
    · exact viable_cons_cons.2 ⟨hside, hfresh, rfl, hviable⟩
    · exact fun h => hnot (viable_cons_cons.1 h).2.2.2
  | @unclosed before n' m hopening hpaired =>
    exact @Broken.unclosed seen ((k, o) :: (n, o.closed) :: before) n' m hopening
      (paired_cons_cons.2 ⟨hside, hfresh, rfl, hpaired⟩)

end Delimiter

variable {o : Delimiter} {k : Nat} {before after ms : List (Nat × Delimiter)}

theorem fault?_of_not_viable (h : ¬Viable seen [m]) :
    fault? seen none ((n, m) :: after) = some (blame none n m) :=
  if_neg fun hm => h (viable_singleton.2 hm)

theorem fault?_opening (hside : o.side = .opening) (hfresh : o.name ∉ seen) :
    fault? seen none ((k, o) :: ms) = fault? (o.name :: seen) (some (k, o)) ms :=
  if_pos ⟨hside, hfresh⟩

theorem fault?_pair (hside : o.side = .opening) (hfresh : o.name ∉ seen) :
    fault? seen none ((k, o) :: (n, o.closed) :: ms) = fault? (o.name :: seen) none ms :=
  (fault?_opening hside hfresh).trans (if_pos rfl)

theorem fault?_eq_none_iff : ∀ {seen} {ms : List (Nat × Delimiter)},
    fault? seen none ms = none ↔ Paired seen (ms.map (·.2))
  | seen, [] => iff_of_true rfl paired_nil
  | seen, [(k, o)] => by
    refine iff_of_false ?_ not_paired_singleton
    rw [fault?]
    split <;> simp [fault?]
  | seen, (k, o) :: (n, m) :: ms => by
    rw [List.map_cons, List.map_cons, paired_cons_cons]
    by_cases ho : o.side = .opening ∧ o.name ∉ seen
    · obtain ⟨hside, hfresh⟩ := ho
      by_cases hm : m = o.closed
      · subst hm
        rw [fault?_pair hside hfresh, fault?_eq_none_iff]
        simp [hside, hfresh]
      · rw [fault?_opening hside hfresh]
        simp [fault?, hm]
    · rw [fault?, if_neg ho]
      simp only [reduceCtorEq, false_iff]
      exact fun h => ho ⟨h.1, h.2.1⟩

theorem broken_of_fault? : ∀ {seen} {ms : List (Nat × Delimiter)},
    fault? seen none ms = some e → Broken seen ms e
  | seen, [], h => by cases h
  | seen, (k, o) :: ms, h => by
    by_cases ho : o.side = .opening ∧ o.name ∉ seen
    · obtain ⟨hside, hfresh⟩ := ho
      match ms with
      | [] =>
        obtain rfl := Option.some.inj ((fault?_opening hside hfresh).symm.trans h)
        exact @Broken.unclosed seen [] k o hside (paired_cons_cons.2 ⟨hside, hfresh, rfl, paired_nil⟩)
      | (n, m) :: ms =>
        by_cases hm : m = o.closed
        · subst hm
          exact broken_cons_cons hside hfresh (broken_of_fault? ((fault?_pair hside hfresh).symm.trans h))
        · rw [fault?_opening hside hfresh, fault?, if_neg hm] at h
          obtain rfl := Option.some.inj h
          rw [← open?_singleton hside]
          exact @Broken.line seen [(k, o)] n m ms (viable_singleton.2 ⟨hside, hfresh⟩) fun h =>
            hm (viable_cons_cons.1 h).2.2.1
    · have hnot : ¬Viable seen [o] := fun h => ho (viable_singleton.1 h)
      obtain rfl := Option.some.inj ((fault?_of_not_viable hnot).symm.trans h)
      exact @Broken.line seen [] k o ms viable_nil hnot

theorem fault?_line : ∀ {seen} {before : List (Nat × Delimiter)}, Viable seen (before.map (·.2)) →
    ¬Viable seen (before.map (·.2) ++ [m]) →
    fault? seen none (before ++ (n, m) :: after) = some (blame (open? (before.map (·.2))) n m)
  | seen, [], _, hnot => fault?_of_not_viable hnot
  | seen, [(k, o)], hviable, hnot => by
    obtain ⟨hside, hfresh⟩ : o.side = .opening ∧ o.name ∉ seen := viable_singleton.1 hviable
    have hm : m ≠ o.closed := fun hm => hnot (viable_cons_cons.2 ⟨hside, hfresh, hm, viable_nil⟩)
    rw [List.cons_append, fault?_opening hside hfresh, List.nil_append, fault?, if_neg hm,
      List.map_singleton, open?_singleton hside]
  | seen, (k, o) :: (k', m') :: before, hviable, hnot => by
    obtain ⟨hside, hfresh, rfl, hbefore⟩ := viable_cons_cons.1 hviable
    have hline := fault?_line hbefore fun h =>
      hnot (viable_cons_cons.2 ⟨hside, hfresh, rfl, h⟩)
    rw [List.map_cons, List.map_cons, open?_cons_cons rfl]
    exact (fault?_pair hside hfresh).trans hline

theorem fault?_unclosed : ∀ {seen} {before : List (Nat × Delimiter)}, m.side = .opening →
    Paired seen (before.map (·.2) ++ [m, m.closed]) →
    fault? seen none (before ++ [(n, m)]) = some (.unclosed m.name n)
  | seen, [], hside, hpaired => by
    obtain ⟨-, hfresh, -, -⟩ := paired_cons_cons.1 hpaired
    exact fault?_opening hside hfresh
  | seen, [(k, o)], hside, hpaired => by
    obtain ⟨-, -, rfl, -⟩ := paired_cons_cons.1 hpaired
    cases hside
  | seen, (k, o) :: (k', m') :: before, hside, hpaired => by
    obtain ⟨hside', hfresh, rfl, hbefore⟩ := paired_cons_cons.1 hpaired
    exact (fault?_pair hside' hfresh).trans (fault?_unclosed hside hbefore)

theorem fault?_eq_some_iff : fault? seen none ms = some e ↔ Broken seen ms e := by
  refine ⟨broken_of_fault?, fun h => ?_⟩
  cases h with
  | line hviable hnot => exact fault?_line hviable hnot
  | unclosed hside hpaired => exact fault?_unclosed hside hpaired

namespace Document

/-- A line is a marker line where it is written like one; a text is read where its marker lines are
those of regions, and else is refused for what is wrong with them. -/
theorem parse_iff_marks (text : String) :
    (∀ line d, delimiter? line = some d ↔ d.Written line) ∧
      ((∃ d, parse text = .ok d) ↔ Paired [] ((marks text).map (·.2))) ∧
      ∀ e, parse text = .error e ↔ Broken [] (marks text) e := by
  refine ⟨fun _ _ => delimiter?_eq_some_iff, ?_, fun e => parse_eq_error_iff.trans fault?_eq_some_iff⟩
  rw [← fault?_eq_none_iff]
  constructor
  · rintro ⟨d, hd⟩
    refine Option.eq_none_iff_forall_ne_some.2 fun e he => ?_
    cases hd.symm.trans (parse_eq_error_iff.2 he)
  · intro h
    cases hparse : parse text with
    | ok d => exact ⟨d, rfl⟩
    | error e => cases h.symm.trans (parse_eq_error_iff.1 hparse)

end Document

end OperatorScaffold.Marker

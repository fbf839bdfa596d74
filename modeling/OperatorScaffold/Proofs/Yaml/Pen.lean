import OperatorScaffold.Proofs.Marker.Unmarked
import OperatorScaffold.Proofs.Text.OneLine
import OperatorScaffold.Yaml.Printer
/-!
The lines that a pen writes. Scalars in one line make no marker line with the indicators around them; of
a text of several lines each may stand alone in a line, with blanks in front.
-/

namespace OperatorScaffold.Yaml

open Marker Text Cursor

/-- The end of the line leaves room for a comment. -/
def Loose (l : List Char) : Prop := ∀ c ∈ l.getLast?, isBlank c

variable {l m cs : List Char} {c : Char} {i : Nat} {s : String}

theorem isBlank_of_isBreakChar (h : isBreakChar c) : isBlank c := by
  simp only [isBreakChar, Bool.or_eq_true, beq_iff_eq] at h
  obtain (((rfl | rfl) | rfl) | rfl) | rfl := h <;> decide

theorem Loose.append {bs : List Char} (hl : Loose l) (hb : ∀ b ∈ bs, isBlank b) : Loose (l ++ bs) := by
  intro c hc
  rw [List.getLast?_append] at hc
  cases h : bs.getLast? with
  | none => exact hl c (by simpa [h] using hc)
  | some b =>
    rw [h] at hc
    exact Option.some.inj hc ▸ hb b (List.mem_of_getLast? h)

/-- An indicator where an entry starts is not the start of a comment. -/
theorem barred_concat (hl : Barred l ∨ Loose l) (hc : ¬joins ' ' c) : Barred (l ++ [c]) := by
  obtain hl | hl := hl
  · exact hl.append _
  · intro hj
    obtain ⟨-, -, hlast⟩ := List.isChain_append.1 (show Joined ((' ' :: l) ++ [c]) from hj)
    cases h : l.getLast? with
    | none => exact hc (hlast ' ' (by simp [List.getLast?_cons, h]) c rfl)
    | some b =>
      have hb := hlast b (by simp [List.getLast?_cons, h]) c rfl
      exact hc ((joins_blank (by decide)).2 ((joins_blank (hl b h)).1 hb))

namespace Pen

variable {p : Pen}

/-- The pen stands in the line `l`, and no line before is a marker line. -/
def On (p : Pen) (l : List Char) : Prop :=
  '\n' ∉ l ∧ ∃ done, p.written.reverse = done ++ l ∧ ∀ more, Unmarked more → Unmarked (done ++ more)

theorem on_start : start.On [] := ⟨nofun, [], rfl, fun _ => id⟩

theorem On.unmarked (h : p.On l) (hl : Silent l) : Unmarked p.written.reverse := by
  obtain ⟨hfeed, done, hd, hdone⟩ := h
  rw [hd]
  exact hdone l ((unmarked_iff_silent hfeed).2 hl)

theorem On.put (h : p.On l) (hc : c ≠ '\n') : (p.put c).On (l ++ [c]) := by
  obtain ⟨hfeed, done, hd, hdone⟩ := h
  refine ⟨by simp [hfeed, Ne.symm hc], done, ?_, hdone⟩
  rw [Pen.put, List.reverse_cons, hd, List.append_assoc]

theorem On.putAll (h : p.On l) (hcs : '\n' ∉ cs) : (p.putAll cs).On (l ++ cs) := by
  induction cs generalizing p l with
  | nil => simpa [Pen.putAll] using h
  | cons c cs ih =>
    rw [List.mem_cons, not_or] at hcs
    have := ih (h.put (Ne.symm hcs.1)) hcs.2
    rwa [List.append_assoc] at this

theorem On.lineFeed (h : p.On l) (hl : Silent l) : (p.lineBreak '\n').On [] := by
  obtain ⟨hfeed, done, hd, hdone⟩ := h
  refine ⟨nofun, done ++ l ++ ['\n'], ?_, fun more hmore => ?_⟩
  · rw [Pen.lineBreak, List.reverse_cons, hd, List.append_nil]
  · rw [List.append_assoc, List.append_assoc]
    exact hdone _ ((unmarked_line_append hfeed).2 ⟨hl, hmore⟩)

/-- A line break that is no line feed stays in the line. -/
theorem On.lineBreak (h : p.On l) (hc : c ≠ '\n') : (p.lineBreak c).On (l ++ [c]) := h.put hc

/-- The pen is in a line that makes no marker line. -/
def Shut (p : Pen) : Prop := ∃ l, p.On l ∧ Barred l

/-- The pen is between entries. A line that more can be written to is still open for a comment. -/
def Idle (p : Pen) : Prop := ∃ l, p.On l ∧ Silent l ∧ (p.indenting → Barred l ∨ Loose l)

/-- The pen is where an entry starts. -/
def Fit (p : Pen) : Prop := p.spaced ∧ ∃ l, p.On l ∧ Silent l ∧ (Barred l ∨ Loose l)

/-- The pen is where a value is written, behind an indicator. -/
def Ready (p : Pen) : Prop := ∃ l, p.On l ∧
  (Barred l ∨ l.getLast? = some ':' ∧ p.spaced = false ∧ p.indenting = false)

theorem Shut.idle (h : p.Shut) : p.Idle := by
  obtain ⟨l, hon, hl⟩ := h
  exact ⟨l, hon, hl.silent, fun _ => .inl hl⟩

theorem Shut.ready (h : p.Shut) : p.Ready := by
  obtain ⟨l, hon, hl⟩ := h
  exact ⟨l, hon, .inl hl⟩

theorem Shut.put (h : p.Shut) (hc : c ≠ '\n') : (p.put c).Shut := by
  obtain ⟨l, hon, hl⟩ := h
  exact ⟨l ++ [c], hon.put hc, hl.append _⟩

theorem Shut.putAll (h : p.Shut) (hcs : '\n' ∉ cs) : (p.putAll cs).Shut := by
  obtain ⟨l, hon, hl⟩ := h
  exact ⟨l ++ cs, hon.putAll hcs, hl.append _⟩

theorem Shut.bracket (h : p.Shut) (hcs : '\n' ∉ cs) (spaces indents : Bool) :
    (p.indicator cs false spaces indents).Shut :=
  h.putAll hcs

/-- A colon has its name behind it in a marker line. -/
theorem not_joined_colon (h : l.getLast? = some ':') (more : List Char) :
    ¬Joined (l ++ ' ' :: more) := by
  intro hj
  obtain ⟨-, -, hlast⟩ := List.isChain_append.1 hj
  exact absurd (hlast ':' h ' ' rfl) (by decide)

theorem Ready.idle (h : p.Ready) : p.Idle := by
  obtain ⟨l, hon, hl | ⟨hl, -, hi⟩⟩ := h
  · exact Shut.idle ⟨l, hon, hl⟩
  · refine ⟨l, hon, silent_of_not_joined fun hj => not_joined_colon hl [] hj.tail, fun h => ?_⟩
    rw [hi] at h
    cases h

/-- In front of a value there is a blank. -/
theorem Ready.space (h : p.Ready) : (if !p.spaced then p.put ' ' else p).Shut := by
  obtain ⟨l, hon, hl | ⟨hl, hs, -⟩⟩ := h
  · have hshut : p.Shut := ⟨l, hon, hl⟩
    split
    · exact hshut.put (by decide)
    · exact hshut
  · rw [hs]
    exact ⟨l ++ [' '], hon.put (by decide), fun hj => not_joined_colon hl [] hj.tail⟩

theorem Ready.indicator (h : p.Ready) (hcs : '\n' ∉ cs) (spaces indents : Bool) :
    (p.indicator cs true spaces indents).Shut :=
  h.space.putAll hcs

theorem Fit.indicator (h : p.Fit) (hc : ¬joins ' ' c) (hfeed : c ≠ '\n') (spaces indents : Bool) :
    (p.indicator [c] true spaces indents).Shut := by
  obtain ⟨hs, l, hon, -, hl⟩ := h
  refine ⟨l ++ [c], ?_, barred_concat hl hc⟩
  rw [Pen.indicator, hs]
  exact hon.put hfeed

theorem On.pad (h : p.On l) (i : Nat) : ∃ bs, (∀ b ∈ bs, isBlank b) ∧ (p.pad i).On (l ++ bs) := by
  have hblank : ∀ b ∈ List.replicate (i - p.column) ' ', isBlank b := fun b hb => by
    rw [List.eq_of_mem_replicate hb]
    rfl
  exact ⟨_, hblank, h.putAll fun hm => absurd (List.eq_of_mem_replicate hm) (by decide)⟩

theorem Idle.indentTo (h : p.Idle) (i : Nat) : (p.indentTo i).Fit := by
  obtain ⟨l, hon, hs, hl⟩ := h
  refine ⟨rfl, ?_⟩
  unfold Pen.indentTo
  dsimp only
  split
  next =>
    obtain ⟨bs, hb, hpad⟩ := (hon.lineFeed hs).pad i
    refine ⟨bs, hpad, ?_, .inr ?_⟩
    · exact (silent_append_blanks (l := []) hb).2 silent_nil
    · exact Loose.append (l := []) nofun hb
  next hc =>
    obtain ⟨bs, hb, hpad⟩ := hon.pad i
    refine ⟨l ++ bs, hpad, (silent_append_blanks hb).2 hs, ?_⟩
    simp only [Bool.or_eq_true, not_or] at hc
    obtain hl | hl := hl (by simpa using hc.1.1)
    · exact .inl (hl.append _)
    · exact .inr (hl.append hb)

/-- Behind a line break that is no line feed the indentation stays in the line. -/
theorem On.indentTo_of_broken (h : p.On l) (hcolumn : p.column = 0) (hi : p.indenting) (hpos : 0 < i) :
    ∃ bs, (∀ b ∈ bs, isBlank b) ∧ (p.indentTo i).On (l ++ bs) := by
  have hstay : ¬((!p.indenting || decide (i < p.column) || decide (p.column = i) && !p.spaced) = true) := by
    simp [hi, hcolumn, hpos.ne]
  obtain ⟨bs, hb, hon⟩ := h.pad i
  refine ⟨bs, hb, ?_⟩
  unfold Pen.indentTo
  rwa [if_neg hstay]

theorem Shut.indentTo_of_broken (h : p.Shut) (hb : p.column = 0 ∧ p.indenting) (hpos : 0 < i) :
    (p.indentTo i).Shut := by
  obtain ⟨l, hon, hl⟩ := h
  obtain ⟨bs, -, hon⟩ := hon.indentTo_of_broken hb.1 hb.2 hpos
  exact ⟨l ++ bs, hon, hl.append _⟩

theorem Ready.plain (h : p.Ready) (hs : OneLine s) : (p.plain s).Idle := by
  unfold Pen.plain
  cases hempty : s.isEmpty with
  | true =>
    obtain rfl : s = "" := String.isEmpty_iff.1 hempty
    obtain ⟨l, hon, hl, -⟩ := h.idle
    rw [Bool.or_true, if_pos rfl]
    exact ⟨l, hon, hl, nofun⟩
  | false =>
    have hshut := h.space.putAll hs
    cases hp : p.spaced <;> simp only [hp, Bool.not_true, Bool.not_false, if_true, Bool.false_eq_true,
      if_false] at hshut ⊢ <;> exact Shut.idle hshut

theorem Shut.singleBody {broken : Bool} (h : p.Shut) (hi : 0 < i) (hcs : '\n' ∉ cs)
    (hb : broken → p.column = 0 ∧ p.indenting) : (singleBody i p broken cs).Shut := by
  induction cs generalizing p broken with
  | nil =>
    rw [Pen.singleBody]
    split
    next hbroken => exact h.indentTo_of_broken (hb hbroken) hi
    next => exact h
  | cons c cs ih =>
    rw [List.mem_cons, not_or] at hcs
    have hc := Ne.symm hcs.1
    rw [Pen.singleBody]
    split
    next =>
      obtain ⟨l, hon, hl⟩ := h
      exact ih ⟨l ++ [c], hon.lineBreak hc, hl.append _⟩ hcs.2 fun _ => ⟨rfl, rfl⟩
    next =>
      refine ih (Shut.put (p := if c = '\'' then Pen.put _ '\'' else _) ?_ hc) hcs.2 nofun
      have hopen : (if broken then p.indentTo i else p).Shut := by
        split
        next hbroken => exact h.indentTo_of_broken (hb hbroken) hi
        next => exact h
      split
      next => exact hopen.put (by decide)
      next => exact hopen

theorem shut_single (h : (p.indicator ['\''] true false false).Shut) (hi : 0 < i) (hs : OneLine s) :
    (p.single i s).Shut := by
  have hbody : (singleBody i (p.indicator ['\''] true false false) false s.toList).Shut :=
    h.singleBody hi hs nofun
  exact hbody.put (by decide)

theorem hexDigit_ne (n : Nat) : upperHexDigit (n % 16) ≠ '\n' := by
  have h : ∀ i < 16, upperHexDigit i ≠ '\n' := by decide
  exact h _ (Nat.mod_lt n (by decide))

theorem feed_not_mem_hexDigits (n w : Nat) : '\n' ∉ hexDigits n w := by
  induction w generalizing n with
  | zero => nofun
  | succ w ih => simp [hexDigits, ih, (hexDigit_ne n).symm]

theorem feed_not_mem_doubleChar (c : Char) : '\n' ∉ doubleChar c := by
  unfold doubleChar
  split
  iterate 14 decide
  next hfeed _ _ _ _ _ _ _ =>
    split_ifs
    · simpa using Ne.symm hfeed
    all_goals simp [feed_not_mem_hexDigits]

theorem shut_double (h : (p.indicator ['"'] true false false).Shut) (s : String) : (p.double s).Shut := by
  have hbody : ((p.indicator ['"'] true false false).putAll (s.toList.flatMap doubleChar)).Shut :=
    h.putAll (by simp [feed_not_mem_doubleChar])
  exact hbody.put (by decide)

/-- `m` is what is written of the current line of the text; in `l` it has blanks more. -/
theorem On.literalBody {broken : Bool} (h : p.On l) (hi : 0 < i) (hm : Spaced m l) (hfeed : '\n' ∉ m)
    (hcs : Unmarked (m ++ cs)) (hb : broken → p.column = 0 ∧ p.indenting ∧ Loose l)
    (hn : broken = false → p.indenting = false) : (literalBody i p broken cs).Idle := by
  induction cs generalizing p l m broken with
  | nil =>
    rw [List.append_nil, unmarked_iff_silent hfeed] at hcs
    refine ⟨l, h, hm.silent hcs, fun hp => .inr ?_⟩
    cases broken with
    | true => exact (hb rfl).2.2
    | false => cases (hn rfl).symm.trans hp
  | cons c cs ih =>
    rw [Pen.literalBody]
    split
    next hbreak =>
      by_cases hc : c = '\n'
      · subst hc
        rw [unmarked_line_append hfeed] at hcs
        exact ih (h.lineFeed (hm.silent hcs.1)) .nil nofun hcs.2 (fun _ => ⟨rfl, rfl, nofun⟩) nofun
      · refine ih (h.lineBreak hc) (hm.append (.refl [c])) (by simp [hfeed, Ne.symm hc]) (by simpa)
          (fun _ => ⟨rfl, rfl, ?_⟩) nofun
        simpa [Loose] using isBlank_of_isBreakChar hbreak
    next hbreak =>
      have hc : c ≠ '\n' := by
        rintro rfl
        exact hbreak rfl
      have hopen : ∃ bs, (∀ b ∈ bs, isBlank b) ∧ (if broken then p.indentTo i else p).On (l ++ bs) := by
        split
        next hbroken => exact h.indentTo_of_broken (hb hbroken).1 (hb hbroken).2.1 hi
        next => exact ⟨[], nofun, by simpa using h⟩
      obtain ⟨bs, hbs, hopen⟩ := hopen
      have hspaced : Spaced m (l ++ bs) := by simpa using hm.append (.of_blanks hbs)
      exact ih (hopen.put hc) (hspaced.append (.refl [c])) (by simp [hfeed, Ne.symm hc]) (by simpa) nofun
        fun _ => rfl

theorem feed_not_mem_literalHints (cs : List Char) : '\n' ∉ literalHints cs := by
  unfold literalHints
  dsimp only
  rw [List.mem_append, not_or]
  constructor <;> split <;> first | decide | split <;> first | decide | split <;> decide

theorem Ready.literal (h : p.Ready) (hi : 0 < i) (hs : Unmarked s.toList) : (p.literal i s).Idle := by
  have hbar : (p.indicator ['|'] true false false).Shut := h.indicator (by decide) false false
  obtain ⟨l, hon, hl⟩ := hbar.putAll (feed_not_mem_literalHints s.toList)
  unfold Pen.literal
  refine On.literalBody (l := []) ?_ hi .nil nofun hs (fun _ => ⟨rfl, rfl, nofun⟩) nofun
  exact hon.lineFeed hl.silent

end Pen

/-- A text of several lines is written in one line or, where it is no key, line by line. -/
theorem chooseStyle_of_feed (simpleKey : Bool) (h : '\n' ∈ s.toList) :
    chooseStyle simpleKey s = .double ∨ chooseStyle simpleKey s = .literal ∧ simpleKey = false := by
  have hl : preferredStyle s = .literal := by
    rw [preferredStyle, if_pos (List.contains_iff_mem.2 h)]
  unfold chooseStyle
  dsimp only
  rw [hl]
  cases simpleKey <;> cases (Demands.ofChars s.toList).broken <;>
    cases (Demands.ofChars s.toList).literal <;> simp

theorem chooseStyle_of_oneLine {simpleKey : Bool} (h : OneLine s) : chooseStyle simpleKey s ≠ .literal := by
  have hl : preferredStyle s ≠ .literal := by
    rw [preferredStyle, if_neg (mt List.contains_iff_mem.1 h)]
    split
    · split <;> decide
    · decide
  unfold chooseStyle
  dsimp only
  cases hp : preferredStyle s with
  | literal => exact absurd hp hl
  | _ =>
    cases simpleKey <;> cases (Demands.ofChars s.toList).broken <;>
      cases (Demands.ofChars s.toList).plain <;> cases (Demands.ofChars s.toList).single <;>
        cases s.isEmpty <;> simp

namespace Pen

variable {p : Pen}

/-- A key in front of its colon stays in one line. -/
theorem Fit.key (h : p.Fit) (hi : 0 < i) (hs : OneLine s) : ∃ l, (p.text i true s).On l := by
  unfold Pen.text
  split
  next =>
    obtain ⟨hspaced, l, hon, -, -⟩ := h
    refine ⟨l ++ s.toList, ?_⟩
    unfold Pen.plain
    rw [hspaced, Bool.true_or, if_pos rfl]
    exact hon.putAll hs
  next =>
    obtain ⟨l, hon, -⟩ := shut_single (h.indicator (by decide) (by decide) false false) hi hs
    exact ⟨l, hon⟩
  next =>
    obtain ⟨l, hon, -⟩ := shut_double (h.indicator (by decide) (by decide) false false) s
    exact ⟨l, hon⟩
  next hstyle => exact absurd hstyle (chooseStyle_of_oneLine hs)

theorem On.colon (h : p.On l) : (p.indicator [':'] false false false).Ready :=
  ⟨l ++ [':'], h.put (by decide), .inr ⟨by simp, rfl, Bool.and_false _⟩⟩

/-- Of a text of one line nothing stands alone in a line of what is written, and of a text of several
lines no line is a marker line. -/
theorem Ready.text (h : p.Ready) (hi : 0 < i) (hs : Marker.Quiet s) :
    (p.text i false s).Idle := by
  have hsingle : (p.indicator ['\''] true false false).Shut := h.indicator (by decide) false false
  have hdouble : (p.indicator ['"'] true false false).Shut := h.indicator (by decide) false false
  unfold Pen.text
  by_cases hfeed : '\n' ∈ s.toList
  · obtain hstyle | ⟨hstyle, -⟩ := chooseStyle_of_feed false hfeed
    · rw [hstyle]
      exact (shut_double hdouble s).idle
    · rw [hstyle]
      exact h.literal hi (hs hfeed)
  · split
    next => exact h.plain hfeed
    next => exact (shut_single hsingle hi hfeed).idle
    next => exact (shut_double hdouble s).idle
    next hstyle => exact absurd hstyle (chooseStyle_of_oneLine hfeed)

end Pen

end OperatorScaffold.Yaml

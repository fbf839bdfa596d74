import OperatorScaffold.Proofs.Yaml.Scan
import OperatorScaffold.Yaml.Written
/-!
Plain scalars are words with blanks between them. The colon of a key ends them, and so does a line end if the
next line is indented less.
-/

namespace OperatorScaffold.Yaml

open Cursor (isBreakChar isBlankChar width)

/-- Characters without a gap that a plain scalar can hold, with a gap at either side. -/
structure Word (w : List Char) : Prop where
  ne_nil : w ≠ []
  solid : ∀ x ∈ w, !(isBlankChar x || isBreakChar x)
  hash : w.head? ≠ some '#'
  colon : w.getLast? ≠ some ':'

inductive Words : List Char → Prop
  | one {w : List Char} : Word w → Words w
  | more {w cs : List Char} {n : Nat} : Word w → Words cs → Words (w ++ List.replicate (n + 1) ' ' ++ cs)

/-- A text that can stand in a line as it is. -/
structure PlainText (cs : List Char) : Prop where
  words : Words cs
  lead : ∀ x r, cs = x :: r → isLeadIndicator x (followsGap r) = false

section

variable {w cs rest : List Char}

/-- No blank and no line break is in front. -/
def Solid (cs : List Char) : Prop := ∀ x ∈ cs.head?, !(isBlankChar x || isBreakChar x)

theorem solid_of_starts (h : Starts cs) : Solid cs := by
  intro x hx
  have h := h x hx
  simp only [isTokenChar, Bool.not_eq_true', Bool.or_eq_false_iff] at h
  simp [isBlankChar, h]

theorem Word.solid_append (hw : Word w) (rest : List Char) : Solid (w ++ rest) := by
  obtain ⟨x, r, rfl⟩ := List.exists_cons_of_ne_nil hw.ne_nil
  intro y hy
  obtain rfl := Option.some.inj hy
  exact hw.solid _ List.mem_cons_self

theorem Words.exists_word (h : Words cs) : ∃ w more, Word w ∧ cs = w ++ more := by
  cases h with
  | one hw => exact ⟨_, [], hw, (List.append_nil _).symm⟩
  | more hw _ => exact ⟨_, _, hw, List.append_assoc _ _ _⟩

end

namespace Lexeme

variable {w cs rest : List Char} {x : Char} {l j o n indent tabFrom : Nat} {f : Fold} {acc : List Char}

/-- A run of characters ends at a gap, or at a colon in front of one. -/
def StopsRun (cs : List Char) : Prop := EndsToken cs ∨ ∃ r, cs = ':' :: r ∧ EndsToken r

theorem StopsRun.peek {cs : List Char} (h : StopsRun cs) : cs = [] ∨ ∃ x r, cs = x :: r ∧
    ((isBlankChar x || isBreakChar x) = true ∨ x = ':' ∧ EndsToken r) := by
  obtain h | ⟨r, rfl, h⟩ := h
  · cases cs with
    | nil => exact .inl rfl
    | cons x r => exact .inr ⟨x, r, rfl, .inl (h x rfl)⟩
  · exact .inr ⟨':', r, rfl, .inr ⟨rfl, h⟩⟩

theorem plainRun_stop (h : StopsRun rest) (m : Nat) :
    plainRun false (m + 1) acc ⟨rest, l, j, o⟩ = some (acc.reverse, ⟨rest, l, j, o⟩) := by
  obtain rfl | ⟨x, r, rfl, hx | ⟨rfl, hr⟩⟩ := h.peek
  · rfl
  · simp [plainRun, Cursor.peek?, Cursor.atGap, Cursor.gapAt, Cursor.peekAt?, hx]
  · simp [plainRun, Cursor.peek?, gapAt_one hr]

/-- A word is read to its end, as no colon in it has a gap behind. -/
theorem plainRun_eq (hw : ∀ x ∈ w, !(isBlankChar x || isBreakChar x)) (hcolon : w.getLast? ≠ some ':')
    (hr : StopsRun rest) (hm : w.length < n) :
    plainRun false n acc ⟨w ++ rest, l, j, o⟩ = some (acc.reverse ++ w, ⟨rest, l, j + w.length, o + width w⟩) := by
  induction w generalizing n acc j o with
  | nil =>
    obtain _ | n := n
    · simp at hm
    simpa [width] using plainRun_stop hr n
  | cons x w ih =>
    obtain _ | n := n
    · simp at hm
    obtain ⟨hx, hw⟩ := List.forall_mem_cons.1 hw
    have hgap : (⟨x :: (w ++ rest), l, j, o⟩ : Cursor).atGap = false := by
      simpa [Cursor.atGap, Cursor.gapAt, Cursor.peekAt?] using hx
    have hstop : (x == ':' && (⟨x :: (w ++ rest), l, j, o⟩ : Cursor).gapAt 1) = false := by
      cases w with
      | nil =>
        have : x ≠ ':' := fun h => hcolon (by simp [h])
        simp [this]
      | cons y w =>
        have := (List.forall_mem_cons.1 hw).1
        simp [Cursor.gapAt, Cursor.peekAt?] at this ⊢
        simp [this]
    have hcolon : w.getLast? ≠ some ':' := by
      cases w with
      | nil => simp
      | cons y w => simpa [List.getLast?_cons_cons] using hcolon
    rw [List.cons_append, plainRun]
    simp only [Cursor.peek?, List.head?_cons, hgap, hstop, Bool.false_and, Bool.or_false, Bool.false_eq_true, if_false]
    refine (ih hw hcolon (by simpa using hm)).trans ?_
    simp [width, Nat.add_assoc, Nat.add_comm 1]

theorem fold_stop (hr : Solid rest) (m : Nat) :
    fold tabFrom (m + 1) f ⟨rest, l, j, o⟩ = some (f, ⟨rest, l, j, o⟩) := by
  cases rest with
  | nil => rfl
  | cons x r =>
    have hx := hr x rfl
    simp only [Bool.not_eq_true', Bool.or_eq_false_iff] at hx
    simp [fold, Cursor.peek?, hx]

/-- Blanks in a line are kept. -/
theorem fold_blanks (hr : Solid rest) {bs : List Char} {m : Nat} (hm : n < m) :
    fold tabFrom m ⟨bs, false, [], []⟩ ⟨List.replicate n ' ' ++ rest, l, j, o⟩ =
      some (⟨bs ++ List.replicate n ' ', false, [], []⟩, ⟨rest, l, j + n, o + n⟩) := by
  induction n generalizing m bs j o with
  | zero =>
    obtain _ | m := m
    · simp at hm
    simpa using fold_stop hr m
  | succ n ih =>
    obtain _ | m := m
    · simp at hm
    have hrest : fold tabFrom m ⟨bs ++ [' '], false, [], []⟩ ⟨List.replicate n ' ' ++ rest, l, j + 1, o + 1⟩ = _ :=
      ih (Nat.lt_of_succ_lt_succ hm)
    refine hrest.trans ?_
    simp [List.replicate_succ, Nat.add_assoc, Nat.add_comm 1]

/-- Indentation behind a line break is passed. -/
theorem fold_indentation (hr : Solid rest) (hf : f.broken) {m : Nat} (hm : n < m) :
    fold tabFrom m f ⟨List.replicate n ' ' ++ rest, l, j, o⟩ = some (f, ⟨rest, l, j + n, o + n⟩) := by
  induction n generalizing m j o with
  | zero =>
    obtain _ | m := m
    · simp at hm
    simpa using fold_stop hr m
  | succ n ih =>
    obtain _ | m := m
    · simp at hm
    have hstep : fold tabFrom (m + 1) f ⟨List.replicate (n + 1) ' ' ++ rest, l, j, o⟩ =
        fold tabFrom m f ⟨List.replicate n ' ' ++ rest, l, j + 1, o + 1⟩ := by
      simp [fold, Cursor.peek?, List.replicate_succ, hf, isBlankChar]
      rfl
    rw [hstep, ih (by omega), Nat.add_right_comm, Nat.add_right_comm o]
    rfl

theorem fold_feed (hr : Solid rest) {m : Nat} (hm : n + 1 < m) :
    fold tabFrom m .start ⟨'\n' :: List.replicate n ' ' ++ rest, l, j, o⟩ =
      some (⟨[], true, ['\n'], []⟩, ⟨rest, l + 1, n, o + 1 + n⟩) := by
  obtain _ | m := m
  · simp at hm
  have hrest : fold tabFrom m ⟨[], true, ['\n'], []⟩ ⟨List.replicate n ' ' ++ rest, l + 1, 0, o + 1⟩ = _ :=
    fold_indentation hr rfl (Nat.lt_of_succ_lt_succ hm)
  rw [Nat.zero_add] at hrest
  exact hrest

/-- The cursor stands where no document can end. -/
def Unmarked (c : Cursor) : Prop := c.atDocumentMarker = false

theorem unmarked_of_column (h : 0 < j) : Unmarked ⟨cs, l, j, o⟩ := by
  have hcolumn : (j == 0) = false := by simpa using Nat.ne_of_gt h
  simp [Unmarked, Cursor.atDocumentMarker, Cursor.atMarker, hcolumn]

section

variable {stop : Nat → Nat → Nat → Cursor} {newLine : Bool}

/-- What follows the last word of a plain scalar decides where it ends. -/
def EndsPlain (indent : Nat) (rest : List Char) (newLine : Bool) (stop : Nat → Nat → Nat → Cursor) : Prop :=
  ∀ w l j o n acc f, Word w → w.length + rest.length < n → indent ≤ j + 1 → Unmarked ⟨w ++ rest, l, j, o⟩ →
    plainBody false indent n acc f ⟨w ++ rest, l, j, o⟩ =
      some (acc ++ f.text ++ w, newLine, stop l (j + w.length) (o + width w))

theorem plainBody_word (hw : Word w) (hr : StopsRun rest) (hmarker : Unmarked ⟨w ++ rest, l, j, o⟩) :
    plainBody false indent (n + 1) acc f ⟨w ++ rest, l, j, o⟩ =
      (let c : Cursor := ⟨rest, l, j + w.length, o + width w⟩
      if !c.atBlank && !c.atBreak then some (acc ++ f.text ++ w, false, c) else do
      let (f', c) ← fold indent (rest.length + 1) .start c
      if c.column < indent then some (acc ++ f.text ++ w, f'.broken, c)
      else plainBody false indent n (acc ++ f.text ++ w) f' c) := by
  have hhash : (⟨w ++ rest, l, j, o⟩ : Cursor).atChar '#' = false := by
    obtain ⟨x, r, rfl⟩ := List.exists_cons_of_ne_nil hw.ne_nil
    have := hw.hash
    simpa [Cursor.atChar, Cursor.peek?] using this
  rw [plainBody, hmarker, hhash, plainRun_eq hw.solid hw.colon hr (by simp only [List.length_append]; omega)]
  simp [hw.ne_nil]
  rfl

theorem endsPlain_colon (hr : EndsToken rest) :
    EndsPlain indent (':' :: rest) false fun l j o => ⟨':' :: rest, l, j, o⟩ := by
  intro w l j o n acc f hw hn _ hmarker
  obtain _ | n := n
  · simp at hn
  rw [plainBody_word hw (.inr ⟨rest, rfl, hr⟩) hmarker]
  rfl

theorem endsPlain_feed {i : Nat} (hr : Starts rest) (hi : i < indent) :
    EndsPlain indent ('\n' :: List.replicate i ' ' ++ rest) true fun l _ o => ⟨rest, l + 1, i, o + 1 + i⟩ := by
  intro w l j o n acc f hw hn _ hmarker
  obtain _ | n := n
  · simp at hn
  have hstop : StopsRun ('\n' :: List.replicate i ' ' ++ rest) := .inl (by simp [EndsToken, isBreakChar])
  have hfold : fold indent (('\n' :: List.replicate i ' ' ++ rest).length + 1) .start
      ⟨'\n' :: List.replicate i ' ' ++ rest, l, j + w.length, o + width w⟩ = _ :=
    fold_feed (solid_of_starts hr) (by simp only [List.length_append, List.length_cons, List.length_replicate]; omega)
  have hbreak : (⟨'\n' :: List.replicate i ' ' ++ rest, l, j + w.length, o + width w⟩ : Cursor).atBreak = true := rfl
  rw [plainBody_word hw hstop hmarker]
  simp only [hbreak, Bool.not_true, Bool.and_false, Bool.false_eq_true, if_false]
  rw [hfold]
  exact if_pos hi

theorem plainBody_words (hw : Words cs) (hend : EndsPlain indent rest newLine stop) :
    ∀ (n : Nat) (acc : List Char) (f : Fold) (l j o : Nat), cs.length + rest.length < n → indent ≤ j + 1 →
    Unmarked ⟨cs ++ rest, l, j, o⟩ → plainBody false indent n acc f ⟨cs ++ rest, l, j, o⟩ =
      some (acc ++ f.text ++ cs, newLine, stop l (j + cs.length) (o + width cs)) := by
  induction hw with
  | one hw =>
    intro n acc f l j o hn hj hmarker
    exact hend _ _ _ _ _ _ _ hw hn hj hmarker
  | @more w cs m hw hcs ih =>
    intro n acc f l j o hn hj hmarker
    obtain _ | n := n
    · simp at hn
    obtain ⟨v, more, hv, rfl⟩ := hcs.exists_word
    have hpos : 0 < w.length := List.length_pos_iff.2 hw.ne_nil
    have hsolid : Solid (v ++ more ++ rest) := by
      rw [List.append_assoc]
      exact hv.solid_append _
    have hstop : StopsRun (List.replicate (m + 1) ' ' ++ (v ++ more ++ rest)) :=
      .inl (by simp [EndsToken, List.replicate_succ, isBlankChar])
    have hfold : fold indent ((List.replicate (m + 1) ' ' ++ (v ++ more ++ rest)).length + 1) .start
        ⟨List.replicate (m + 1) ' ' ++ (v ++ more ++ rest), l, j + w.length, o + width w⟩ = _ :=
      fold_blanks hsolid (by simp only [List.length_append, List.length_replicate]; omega)
    have hblank : (⟨List.replicate (m + 1) ' ' ++ (v ++ more ++ rest), l, j + w.length, o + width w⟩ : Cursor).atBlank =
        true := rfl
    have hcolumn : ¬j + w.length + (m + 1) < indent := by omega
    have hrest := ih n (acc ++ f.text ++ w) ⟨List.replicate (m + 1) ' ', false, [], []⟩ l (j + w.length + (m + 1))
      (o + width w + (m + 1)) (by simp at hn ⊢; omega) (by omega) (unmarked_of_column (by omega))
    simp only [List.append_assoc] at hmarker hstop hfold hblank hrest ⊢
    rw [plainBody_word hw hstop hmarker]
    simp only [hblank, Bool.not_true, Bool.false_and, Bool.false_eq_true, if_false]
    rw [hfold]
    simp only [List.append_assoc, List.nil_append, Option.bind_eq_bind, Option.bind_some, hcolumn, if_false]
    rw [hrest]
    simp [Fold.text, width, Nat.add_assoc, show ' '.utf8Size = 1 from rfl]

end

end Lexeme

section

variable {cs a b : List Char} {x d : Char}

theorem inner_tail (h : hasInnerIndicator (x :: cs) = false) : hasInnerIndicator cs = false := by
  cases cs with
  | nil => rfl
  | cons y cs => exact (Bool.or_eq_false_iff.1 h).2

theorem not_indicator_of_inner (h : hasInnerIndicator (a ++ x :: d :: b) = false) :
    (d = ':' → followsGap b = false) ∧ (d = '#' → isGapChar x = false) := by
  induction a with
  | nil =>
    simp only [List.nil_append, hasInnerIndicator, Bool.or_eq_false_iff, Bool.and_eq_false_iff] at h
    constructor <;> rintro rfl
    · simpa using h.1.1
    · simpa using h.1.2
  | cons y a ih => exact ih (inner_tail h)

/-- Nothing in the text ends it, or starts a comment, as it is read in a line. -/
structure Smooth (cs : List Char) : Prop where
  solid : ∀ x ∈ cs, x = ' ' ∨ !(isBlankChar x || isBreakChar x)
  inner : hasInnerIndicator cs = false
  first : ∀ x r, cs = x :: r → x ≠ ' ' ∧ x ≠ '#' ∧ (x = ':' → followsGap r = false)
  last : cs.getLast? ≠ some ' '

/-- A colon has no gap behind it. -/
theorem Smooth.colon (h : Smooth cs) (hc : cs = a ++ ':' :: b) : followsGap b = false := by
  obtain rfl | ⟨a, x, rfl⟩ := a.eq_nil_or_concat
  · exact (h.first ':' b hc).2.2 rfl
  · exact (not_indicator_of_inner (a := a) (x := x) (by simpa [hc] using h.inner)).1 rfl

theorem Smooth.word (h : Smooth cs) {w r : List Char} (hc : cs = w ++ r) (hne : w ≠ []) (hw : ' ' ∉ w)
    (hr : followsGap r) : Word w where
  ne_nil := hne
  solid x hx := (h.solid x (by simp [hc, hx])).resolve_left fun he => hw (he ▸ hx)
  hash := by
    obtain ⟨x, w, rfl⟩ := List.exists_cons_of_ne_nil hne
    simpa using (h.first x (w ++ r) hc).2.1
  colon hlast := by
    obtain ⟨w, rfl⟩ := List.getLast?_eq_some_iff.1 hlast
    have := h.colon (a := w) (b := r) (by simpa using hc)
    simp [hr] at this

theorem Smooth.behind (h : Smooth cs) {w r : List Char} (hc : cs = w ++ ' ' :: r) (hr : r.head? ≠ some ' ') :
    Smooth r where
  solid x hx := h.solid x (by simp [hc, hx])
  inner := by
    have := h.inner
    rw [hc] at this
    clear hc h
    induction w with
    | nil => exact inner_tail this
    | cons y w ih => exact ih (inner_tail this)
  first x r' he := by
    subst he
    refine ⟨by simpa using hr, ?_, ?_⟩
    · rintro rfl
      have := (not_indicator_of_inner (a := w) (x := ' ') (d := '#') (b := r') (hc ▸ h.inner)).2 rfl
      cases this
    · rintro rfl
      exact h.colon (a := w ++ [' ']) (by simpa using hc)
  last hlast := h.last (by simp [hc, List.getLast?_append, List.getLast?_cons, hlast])

theorem exists_blanks (cs : List Char) : ∃ m r, cs = List.replicate m ' ' ++ r ∧ r.head? ≠ some ' ' := by
  induction cs with
  | nil => exact ⟨0, [], rfl, nofun⟩
  | cons x cs ih =>
    by_cases hx : x = ' '
    · obtain ⟨m, r, rfl, hr⟩ := ih
      exact ⟨m + 1, r, by rw [hx]; rfl, hr⟩
    · exact ⟨0, x :: cs, rfl, by simpa using hx⟩

/-- A text without blanks, or a piece of it in front of blanks and more of its like. -/
theorem Smooth.split (h : Smooth cs) (hne : cs ≠ []) : ∃ w, w ≠ [] ∧ ' ' ∉ w ∧
    (cs = w ∨ ∃ m more, more ≠ [] ∧ more.head? ≠ some ' ' ∧ cs = w ++ List.replicate (m + 1) ' ' ++ more) := by
  by_cases hmem : ' ' ∈ cs
  · obtain ⟨w, r, rfl, hw⟩ := List.eq_append_cons_of_mem hmem
    obtain ⟨m, more, rfl, hhead⟩ := exists_blanks r
    have hstart : w ≠ [] := by
      rintro rfl
      exact (h.first _ _ rfl).1 rfl
    have hmore : more ≠ [] := by
      rintro rfl
      refine h.last ?_
      rw [List.append_nil, ← List.replicate_succ, List.replicate_succ', ← List.append_assoc,
        List.getLast?_concat]
    exact ⟨w, hstart, hw, .inr ⟨m, more, hmore, hhead, by simp [List.replicate_succ]⟩⟩
  · exact ⟨cs, hne, hmem, .inl rfl⟩

theorem Smooth.words : ∀ {cs : List Char}, Smooth cs → cs ≠ [] → Words cs := by
  intro cs
  induction hn : cs.length using Nat.strongRecOn generalizing cs with
  | ind n ih =>
    intro h hne
    obtain ⟨w, hw, hsolid, rfl | ⟨m, more, hmore, hhead, rfl⟩⟩ := h.split hne
    · exact .one (h.word (List.append_nil cs).symm hne hsolid rfl)
    · have hbehind : Smooth more := by
        refine h.behind (w := w ++ List.replicate m ' ') ?_ hhead
        simp [List.replicate_succ']
      refine .more (h.word (List.append_assoc _ _ _) hw hsolid rfl) (ih more.length ?_ rfl hbehind hmore)
      rw [← hn]
      simp
      omega

theorem isShown_of_ordinary (h : (Demands.ofChars cs).special = false) : ∀ x ∈ cs, isShown x := by
  intro x hx
  have h := List.any_eq_false.1 h x hx
  simpa using h

/-- A text that may be written as it is can be read as it is. -/
theorem plainText_of_demands (h : (Demands.ofChars cs).plain) (hne : cs ≠ []) :
    PlainText cs ∧ looksLikeMarker cs = false := by
  simp only [Demands.plain, Bool.not_eq_true', Bool.or_eq_false_iff] at h
  obtain ⟨⟨⟨⟨⟨hindicator, hbroken⟩, hspecial⟩, hloose⟩, -⟩, -⟩ := h
  simp only [Demands.ofChars, Bool.or_eq_false_iff] at hindicator hbroken hloose
  obtain ⟨⟨hmarker, hinner⟩, hlead⟩ := hindicator
  have hlead : ∀ x r, cs = x :: r → isLeadIndicator x (followsGap r) = false := by
    rintro x r rfl
    exact hlead
  have hsmooth : Smooth cs := {
    solid := fun x hx => by
      have hbreak := List.any_eq_false.1 hbroken x hx
      have htab : x ≠ '\t' := by
        rintro rfl
        exact absurd (isShown_of_ordinary hspecial _ hx) (by decide)
      simp [isBlankChar, hbreak, htab, em]
    inner := hinner
    first := by
      rintro x r rfl
      have h := hlead x r rfl
      have hspace := hloose.1
      simp [isSpaceChar] at hspace
      refine ⟨hspace.1, ?_, ?_⟩
      · rintro rfl
        simp [isLeadIndicator] at h
      · rintro rfl
        simpa [isLeadIndicator] using h
    last := fun hlast => by
      have := hloose.2
      rw [hlast] at this
      cases this }
  exact ⟨⟨hsmooth.words hne, hlead⟩, hmarker⟩

theorem isPrefixOf_append {x : Char} {cs rest : List Char} (h : [x, x, x].isPrefixOf cs = false)
    (hr : rest.head? ≠ some x) : [x, x, x].isPrefixOf (cs ++ rest) = false := by
  rcases cs with - | ⟨a, - | ⟨b, - | ⟨c, cs⟩⟩⟩ <;> rcases rest with - | ⟨y, r⟩ <;>
    grind [List.isPrefixOf]

/-- Where the text is no document marker, it is none with what stops it. -/
theorem unmarked_of_text {rest : List Char} {l j o : Nat} (h : looksLikeMarker cs = false)
    (hdash : rest.head? ≠ some '-') (hdot : rest.head? ≠ some '.') : Lexeme.Unmarked ⟨cs ++ rest, l, j, o⟩ := by
  obtain ⟨hd, hp⟩ := Bool.or_eq_false_iff.1 h
  simp [Lexeme.Unmarked, Cursor.atDocumentMarker, Cursor.atMarker, isPrefixOf_append hd hdash,
    isPrefixOf_append hp hdot]

end

namespace TokenStream

variable {cs rest : List Char} {x : Char} {ts : List Token} {is : List Nat} {b newLine : Bool} {l j o : Nat}
  {stop : Nat → Nat → Nat → Cursor}

theorem isTokenChar_of_lead {beforeGap : Bool} (h : isLeadIndicator x beforeGap = false)
    (hs : !(isBlankChar x || isBreakChar x)) (hm : x ≠ '\ufeff') : isTokenChar x := by
  have hhash : x ≠ '#' := by
    rintro rfl
    exact absurd h (by simp [isLeadIndicator])
  simp [isBlankChar] at hs
  simp [isTokenChar, hs, hhash, hm]

/-- What can lead a plain scalar starts no other token. -/
theorem nextToken_of_lead {r : List Char} (h : isLeadIndicator x (followsGap r) = false)
    (hmarker : Lexeme.Unmarked ⟨x :: (r ++ rest), l, j, o⟩) :
    nextToken ⟨⟨x :: (r ++ rest), l, j, o⟩, ts, is, [none], b⟩ x =
      TokenStream.plain ⟨⟨x :: (r ++ rest), l, j, o⟩, ts, is, [none], b⟩ := by
  obtain ⟨hdash, hdot⟩ := Bool.or_eq_false_iff.1 hmarker
  simp only [isLeadIndicator, Bool.or_eq_false_iff, Bool.and_eq_false_iff] at h
  obtain ⟨hlist, hgap⟩ := h
  simp at hlist
  by_cases hx : x = '-' ∨ x = '?' ∨ x = ':'
  · have hone : ∃ y r', r = y :: r' ∧ isBlankChar y = false ∧ isBreakChar y = false := by
      have hfollows : followsGap r = false := by
        obtain h | h := hgap
        · obtain rfl | rfl | rfl := hx <;> simp at h
        · exact h
      cases r with
      | nil => cases hfollows
      | cons y r' =>
        simp [followsGap, isGapChar] at hfollows
        exact ⟨y, r', rfl, hfollows.1.1, hfollows.1.2⟩
    obtain ⟨y, r', rfl, hblank, hbreak⟩ := hone
    rw [List.cons_append] at hdash hdot ⊢
    have hgap : (⟨x :: y :: (r' ++ rest), l, j, o⟩ : Cursor).gapAt 1 = false := by
      simp [Cursor.gapAt, Cursor.peekAt?, hblank, hbreak]
    have hpeek : (⟨x :: y :: (r' ++ rest), l, j, o⟩ : Cursor).peekAt? 1 = some y := rfl
    obtain rfl | rfl | rfl := hx <;> simp [nextToken, hdash, hdot, hgap, inFlow, startsPlain, hpeek, hblank]
  · simp only [not_or] at hx
    simp [nextToken, hdash, hdot, hlist, inFlow, hx, startsPlain]

/-- A plain scalar at the start of a token. -/
theorem nextToken_plain (ts : List Token) (is : List Nat) (b : Bool) (hp : PlainText cs)
    (hmarker : Lexeme.Unmarked ⟨cs ++ rest, l, j, o⟩) {least : Nat}
    (hleast : (is.head?.map (· + 1)).getD 0 = least) (hj : least ≤ j + 1)
    (hend : Lexeme.EndsPlain least rest newLine stop) : ∃ x, (cs ++ rest).head? = some x ∧
    nextToken ⟨⟨cs ++ rest, l, j, o⟩, ts, is, [none], b⟩ x =
      some ⟨stop l (j + cs.length) (o + width cs), .scalar .plain (.ofList cs) :: ts, is,
        [saved ⟨cs ++ rest, l, j, o⟩ ts is b], newLine⟩ := by
  obtain ⟨w, more, hw, hcs⟩ := hp.words.exists_word
  obtain ⟨x, r, rfl⟩ : ∃ x r, cs = x :: r := by
    obtain ⟨x, r, rfl⟩ := List.exists_cons_of_ne_nil hw.ne_nil
    exact ⟨x, r ++ more, hcs⟩
  refine ⟨x, rfl, ?_⟩
  have hlexeme : Lexeme.plain false least ⟨x :: r ++ rest, l, j, o⟩ =
      some (.scalar .plain (.ofList (x :: r)), newLine, stop l (j + (x :: r).length) (o + width (x :: r))) := by
    rw [Lexeme.plain, Lexeme.plainBody_words hp.words hend _ _ _ _ _ _ (by simp; omega) hj hmarker]
    rfl
  rw [List.cons_append, nextToken_of_lead (hp.lead x r rfl) hmarker, TokenStream.plain, saveKey_eq]
  subst hleast
  change (Lexeme.plain false ((is.head?.map (· + 1)).getD 0) ⟨x :: r ++ rest, l, j, o⟩).bind _ = _
  rw [hlexeme]
  rfl

end TokenStream

end OperatorScaffold.Yaml

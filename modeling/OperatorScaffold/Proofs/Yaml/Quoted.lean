import OperatorScaffold.Proofs.Yaml.Word
import OperatorScaffold.Yaml.Printer
/-!
Quoted scalars. Blanks are kept as they stand in a line, and the line breaks that are no line feeds with the
indentation behind them dropped.
-/

namespace OperatorScaffold.Yaml

open Cursor (isBreakChar isBlankChar width)

/-- The body of a quoted scalar: a break is followed by indentation, and the other characters are spelled one by
one. -/
def quotedText (indent : Nat) (breaks : Char → Bool) (spell : Char → List Char) : Bool → List Char → List Char
  | broken, [] => if broken then List.replicate indent ' ' else []
  | broken, c :: cs =>
    if breaks c then c :: quotedText indent breaks spell true cs
    else (if broken then List.replicate indent ' ' else []) ++ spell c ++ quotedText indent breaks spell false cs

/-- The quotes of the one kind or the other. -/
def Lexeme.quote (single : Bool) : Char := if single then '\'' else '"'

def quotedScalar (single : Bool) (indent : Nat) (breaks : Char → Bool) (spell : Char → List Char) (cs : List Char) :
    List Char :=
  Lexeme.quote single :: (quotedText indent breaks spell false cs ++ [Lexeme.quote single])

namespace Lexeme

variable {single : Bool} {breaks : Char → Bool} {spell : Char → List Char} {cs w us rest : List Char} {c q : Char}
  {acc : List Char} {l j o n indent : Nat}

/-- The characters stand for the one, wherever they are in a quoted scalar. -/
structure Spells (single : Bool) (us : List Char) (c : Char) : Prop where
  solid : ∀ rest, Solid (us ++ rest)
  ne_nil : us ≠ []
  read : ∀ rest l j o n acc, quotedRun single (n + 1) acc ⟨us ++ rest, l, j, o⟩ =
    quotedRun single n (c :: acc) ⟨rest, l, j + us.length, o + width us⟩

/-- What can be written between quotes. -/
structure Quotable (single : Bool) (breaks : Char → Bool) (spell : Char → List Char) (cs : List Char) : Prop where
  space : spell ' ' = [' ']
  breaks_eq : ∀ c ∈ cs, breaks c → c = '\u2028' ∨ c = '\u2029'
  spells : ∀ c ∈ cs, breaks c = false → c ≠ ' ' → Spells single (spell c) c
  apart : ∀ a c d b, cs = a ++ c :: d :: b → (breaks c → d ≠ ' ') ∧ (c = ' ' → breaks d = false)

theorem quotedRun_word (hw : ∀ c ∈ w, Spells single (spell c) c) : ∀ n acc l j o,
    quotedRun single (w.length + n) acc ⟨w.flatMap spell ++ rest, l, j, o⟩ =
      quotedRun single n (w.reverse ++ acc) ⟨rest, l, j + (w.flatMap spell).length, o + width (w.flatMap spell)⟩ := by
  induction w with
  | nil => simp [width]
  | cons c w ih =>
    intro n acc l j o
    obtain ⟨hc, hw⟩ := List.forall_mem_cons.1 hw
    rw [List.flatMap_cons, List.append_assoc, List.length_cons, Nat.add_right_comm, hc.read, ih hw]
    simp [width, Nat.add_assoc]

theorem quotedRun_quote (hr : rest.head? ≠ some (quote single)) :
    quotedRun single (n + 1) acc ⟨quote single :: rest, l, j, o⟩ =
      some (acc.reverse, .quote, ⟨quote single :: rest, l, j, o⟩) := by
  cases single with
  | false => simp [quotedRun, quote, Cursor.atGap, Cursor.gapAt, Cursor.peekAt?, isBlankChar, isBreakChar]
  | true =>
    rcases rest with - | ⟨x, r⟩
    · rfl
    · have hx : x ≠ '\'' := by simpa [quote] using hr
      have hgap : (⟨'\'' :: x :: r, l, j, o⟩ : Cursor).atGap = false := rfl
      simp only [quotedRun, quote, if_true, hgap, Bool.false_eq_true, if_false]
      split <;> grind [quote]

theorem quotedRun_gap (hr : EndsToken (c :: rest)) :
    quotedRun single (n + 1) acc ⟨c :: rest, l, j, o⟩ = some (acc.reverse, .gap, ⟨c :: rest, l, j, o⟩) := by
  have hgap : (⟨c :: rest, l, j, o⟩ : Cursor).atGap = true := hr c rfl
  unfold quotedRun
  exact if_pos hgap

section

variable {bs : List Char} {b : Char} {f : Fold} {m tabFrom : Nat}

theorem takeBreak_separator (hb : b = '\u2028' ∨ b = '\u2029') :
    (⟨b :: rest, l, j, o⟩ : Cursor).takeBreak = ([b], ⟨rest, l + 1, 0, o + b.utf8Size⟩) := by
  obtain rfl | rfl := hb <;> rfl

theorem fold_break (hb : b = '\u2028' ∨ b = '\u2029') :
    fold tabFrom (m + 1) f ⟨b :: rest, l, j, o⟩ = fold tabFrom m (f.addBreak [b]) ⟨rest, l + 1, 0, o + b.utf8Size⟩ := by
  have htake : (⟨b :: rest, l, j, o⟩ : Cursor).takeBreak = _ := takeBreak_separator hb
  have hblank : isBlankChar b = false := by obtain rfl | rfl := hb <;> rfl
  have hbreak : isBreakChar b = true := by obtain rfl | rfl := hb <;> rfl
  simp [fold, Cursor.peek?, hblank, hbreak, htake]

theorem fold_separators (hbs : ∀ b ∈ bs, b = '\u2028' ∨ b = '\u2029') (hr : Solid rest) :
    ∀ (m : Nat) (f : Fold) (l o : Nat), f.broken → bs.length + n < m →
    fold tabFrom m f ⟨bs ++ (List.replicate n ' ' ++ rest), l, 0, o⟩ =
      some ({ f with more := f.more ++ bs }, ⟨rest, l + bs.length, n, o + width bs + n⟩) := by
  induction bs with
  | nil =>
    intro m f l o hf hm
    simpa [width] using fold_indentation (j := 0) hr hf (by simpa using hm)
  | cons b bs ih =>
    intro m f l o hf hm
    obtain _ | m := m
    · simp at hm
    obtain ⟨hb, hbs⟩ := List.forall_mem_cons.1 hbs
    have hadd : f.addBreak [b] = { f with more := f.more ++ [b] } := if_pos hf
    rw [List.cons_append, fold_break hb, hadd,
      ih hbs m { f with more := f.more ++ [b] } (l + 1) (o + b.utf8Size) hf (by simp at hm; omega)]
    simp [width, Nat.add_assoc, Nat.add_comm 1]

/-- Line separators are kept, and the indentation behind them is not. -/
theorem fold_first_separator (hb : b = '\u2028' ∨ b = '\u2029') (hbs : ∀ b ∈ bs, b = '\u2028' ∨ b = '\u2029')
    (hr : Solid rest) (hm : bs.length + n + 1 < m) :
    ∃ f, f.text = b :: bs ∧ fold tabFrom m .start ⟨b :: bs ++ (List.replicate n ' ' ++ rest), l, j, o⟩ =
      some (f, ⟨rest, l + 1 + bs.length, n, o + b.utf8Size + width bs + n⟩) := by
  obtain _ | m := m
  · simp at hm
  refine ⟨⟨[], true, [b], bs⟩, ?_, ?_⟩
  · have hne : ([b] == ['\n']) = false := by obtain rfl | rfl := hb <;> rfl
    simp [Fold.text, hne]
  · rw [List.cons_append, fold_break hb]
    exact fold_separators hbs hr m _ _ _ rfl (Nat.lt_of_succ_lt_succ hm)

end

/-- Neither a blank nor a break. -/
def Inky (breaks : Char → Bool) (c : Char) : Prop := c ≠ ' ' ∧ breaks c = false

/-- Runs of characters with gaps between them, each of blanks or of breaks alone. -/
inductive Runs (breaks : Char → Bool) : List Char → Prop
  | run {w : List Char} : (∀ c ∈ w, Inky breaks c) → Runs breaks w
  | gap {w g cs : List Char} {p : Char → Prop} : (∀ c ∈ w, Inky breaks c) → g ≠ [] → (∀ c ∈ g, p c) →
      (p = (· = ' ') ∨ p = (breaks · = true)) → (∀ c ∈ cs.head?, Inky breaks c) → Runs breaks cs →
      Runs breaks (w ++ g ++ cs)

theorem Runs.cons (h : Runs breaks cs) (hc : Inky breaks c) : Runs breaks (c :: cs) := by
  cases h with
  | run hw => exact .run (List.forall_mem_cons.2 ⟨hc, hw⟩)
  | gap hw hg hp hor hhead h =>
    rw [← List.cons_append, ← List.cons_append]
    exact .gap (List.forall_mem_cons.2 ⟨hc, hw⟩) hg hp hor hhead h

/-- A gap grows at its front, if what follows it is not a gap of the other sort. -/
theorem Runs.cons_gap (h : Runs breaks cs) (hspace : breaks ' ' = false) {p : Char → Prop}
    (hp : p = (· = ' ') ∨ p = (breaks · = true)) (hc : p c) (hnext : ∀ d ∈ cs.head?, Inky breaks d ∨ p d) :
    Runs breaks (c :: cs) := by
  have hgap (hhead : ∀ d ∈ cs.head?, Inky breaks d) : Runs breaks (c :: cs) :=
    .gap (w := []) nofun (List.cons_ne_nil c []) (List.forall_mem_singleton.2 hc) hp hhead h
  cases h with
  | run hw => exact hgap fun x hx => hw x (List.mem_of_mem_head? hx)
  | @gap w g more p' hw hg hp' hor hhead h =>
    cases w with
    | cons x w => exact hgap fun y hy => Option.some.inj hy ▸ hw x List.mem_cons_self
    | nil =>
      obtain ⟨d, g, rfl⟩ := List.exists_cons_of_ne_nil hg
      have hd := hp' d List.mem_cons_self
      have hsame : p = p' := by
        have hpd : p d := (hnext d rfl).resolve_left fun hink => by
          obtain rfl | rfl := hor
          · exact hink.1 hd
          · exact absurd hd (by simp [hink.2])
        obtain rfl | rfl := hp <;> obtain rfl | rfl := hor
        · rfl
        · subst hpd
          simp [hspace] at hd
        · subst hd
          simp [hspace] at hpd
        · rfl
      subst hsame
      exact .gap (w := []) nofun (List.cons_ne_nil c (d :: g)) (List.forall_mem_cons.2 ⟨hc, hp'⟩) hor hhead h

theorem Quotable.tail (h : Quotable single breaks spell (c :: cs)) : Quotable single breaks spell cs where
  space := h.space
  breaks_eq x hx := h.breaks_eq x (List.mem_cons_of_mem c hx)
  spells x hx := h.spells x (List.mem_cons_of_mem c hx)
  apart a x d b he := h.apart (c :: a) x d b (by rw [he]; rfl)

theorem Quotable.runs (h : Quotable single breaks spell cs) (hspace : breaks ' ' = false) : Runs breaks cs := by
  induction cs with
  | nil => exact .run nofun
  | cons c cs ih =>
    have hrest := ih h.tail
    have hnext : ∀ d ∈ cs.head?, (breaks c → d ≠ ' ') ∧ (c = ' ' → breaks d = false) := by
      intro d hd
      obtain ⟨b, rfl⟩ := List.head?_eq_some_iff.1 hd
      exact h.apart [] c d b rfl
    by_cases hc : c = ' '
    · refine hrest.cons_gap hspace (.inl rfl) hc fun d hd => ?_
      by_cases hd' : d = ' '
      · exact .inr hd'
      · exact .inl ⟨hd', (hnext d hd).2 hc⟩
    · cases hbreak : breaks c with
      | false => exact hrest.cons ⟨hc, hbreak⟩
      | true =>
        refine hrest.cons_gap hspace (.inr rfl) hbreak fun d hd => ?_
        cases hd' : breaks d with
        | true => exact .inr rfl
        | false => exact .inl ⟨(hnext d hd).1 hbreak, hd'⟩

theorem quotedText_word (hw : ∀ c ∈ w, Inky breaks c) (cs : List Char) :
    quotedText indent breaks spell false (w ++ cs) = w.flatMap spell ++ quotedText indent breaks spell false cs := by
  induction w with
  | nil => rfl
  | cons c w ih =>
    obtain ⟨hc, hw⟩ := List.forall_mem_cons.1 hw
    simp [quotedText, hc.2, ih hw]

theorem quotedText_true (hc : ∀ c ∈ cs.head?, breaks c = false) :
    quotedText indent breaks spell true cs = List.replicate indent ' ' ++ quotedText indent breaks spell false cs := by
  cases cs with
  | nil => simp [quotedText]
  | cons c cs => simp [quotedText, hc c rfl]

theorem quotedText_blanks {g : List Char} (hg : ∀ c ∈ g, c = ' ') (hspace : breaks ' ' = false) (hs : spell ' ' = [' '])
    (cs : List Char) :
    quotedText indent breaks spell false (g ++ cs) = g ++ quotedText indent breaks spell false cs := by
  induction g with
  | nil => rfl
  | cons c g ih =>
    obtain ⟨hc, hg'⟩ := List.forall_mem_cons.1 hg
    simp [quotedText, hc, hspace, hs, ih hg']

theorem quotedText_breaks {g : List Char} (hg : ∀ c ∈ g, breaks c) (hne : g ≠ []) {broken : Bool} (cs : List Char) :
    quotedText indent breaks spell broken (g ++ cs) = g ++ quotedText indent breaks spell true cs := by
  induction g generalizing broken with
  | nil => exact absurd rfl hne
  | cons c g ih =>
    obtain ⟨hc, hg⟩ := List.forall_mem_cons.1 hg
    rw [List.cons_append, quotedText, if_pos hc]
    cases g with
    | nil => rfl
    | cons d g => rw [ih hg (List.cons_ne_nil d g)]; rfl

theorem length_le_flatMap (hw : ∀ c ∈ w, Spells single (spell c) c) : w.length ≤ (w.flatMap spell).length := by
  induction w with
  | nil => simp
  | cons c w ih =>
    obtain ⟨hc, hw⟩ := List.forall_mem_cons.1 hw
    have hpos := List.length_pos_iff.2 hc.ne_nil
    have := ih hw
    simp only [List.flatMap_cons, List.length_append, List.length_cons]
    omega

/-- A run is read up to what stops it. -/
theorem quotedRun_eq (hw : ∀ c ∈ w, Spells single (spell c) c) {stop : Stop}
    (hstop : ∀ n acc l j o, quotedRun single (n + 1) acc ⟨rest, l, j, o⟩ = some (acc.reverse, stop, ⟨rest, l, j, o⟩)) :
    quotedRun single ((w.flatMap spell ++ rest).length + 1) [] ⟨w.flatMap spell ++ rest, l, j, o⟩ =
      some (w, stop, ⟨rest, l, j + (w.flatMap spell).length, o + width (w.flatMap spell)⟩) := by
  obtain ⟨k, hk⟩ : ∃ k, (w.flatMap spell ++ rest).length + 1 = w.length + (k + 1) := by
    have := length_le_flatMap hw
    refine ⟨(w.flatMap spell ++ rest).length - w.length, ?_⟩
    rw [List.length_append]
    omega
  rw [hk, quotedRun_word hw, hstop]
  simp

theorem quotedBody_quote (hw : ∀ c ∈ w, Spells single (spell c) c) (hj : 0 < j)
    (hr : rest.head? ≠ some (quote single)) :
    quotedBody single (n + 1) acc ⟨w.flatMap spell ++ quote single :: rest, l, j, o⟩ =
      some (acc ++ w, ⟨rest, l, j + (w.flatMap spell).length + 1, o + width (w.flatMap spell) + 1⟩) := by
  have hmarker : (⟨w.flatMap spell ++ quote single :: rest, l, j, o⟩ : Cursor).atDocumentMarker = false :=
    unmarked_of_column hj
  have hend : (⟨w.flatMap spell ++ quote single :: rest, l, j, o⟩ : Cursor).atEnd = false := by simp [Cursor.atEnd]
  have hwidth : (quote single).utf8Size = 1 := by cases single <;> rfl
  rw [quotedBody, hmarker, hend, quotedRun_eq hw fun n acc l j o => quotedRun_quote hr]
  simp [Cursor.next, hwidth]

theorem quotedBody_gap (hw : ∀ c ∈ w, Spells single (spell c) c) (hj : 0 < j) (hr : EndsToken rest) (hne : rest ≠ [])
    {f : Fold} {c : Cursor} (hfold : fold 0 (rest.length + 1) .start
      ⟨rest, l, j + (w.flatMap spell).length, o + width (w.flatMap spell)⟩ = some (f, c)) :
    quotedBody single (n + 1) acc ⟨w.flatMap spell ++ rest, l, j, o⟩ =
      quotedBody single n (acc ++ w ++ f.text) c := by
  obtain ⟨x, r, rfl⟩ := List.exists_cons_of_ne_nil hne
  have hmarker : (⟨w.flatMap spell ++ x :: r, l, j, o⟩ : Cursor).atDocumentMarker = false := unmarked_of_column hj
  have hend : (⟨w.flatMap spell ++ x :: r, l, j, o⟩ : Cursor).atEnd = false := by simp [Cursor.atEnd]
  rw [quotedBody, hmarker, hend, quotedRun_eq hw fun n acc l j o => quotedRun_gap hr]
  simp only [Bool.or_self, Bool.false_eq_true, if_false, Option.bind_eq_bind, Option.bind_some]
  rw [hfold]
  rfl

section

variable {bs more : List Char} {b : Char} {m : Nat}

/-- Blanks between two runs are kept. -/
theorem quotedBody_blanks (hw : ∀ c ∈ w, Spells single (spell c) c) (hj : 0 < j) (hm : 0 < m) (hmore : Solid more) :
    quotedBody single (n + 1) acc ⟨w.flatMap spell ++ (List.replicate m ' ' ++ more), l, j, o⟩ =
      quotedBody single n (acc ++ w ++ List.replicate m ' ')
        ⟨more, l, j + (w.flatMap spell).length + m, o + width (w.flatMap spell) + m⟩ := by
  obtain ⟨m, rfl⟩ := Nat.exists_eq_add_of_lt hm
  have hends : EndsToken (List.replicate (0 + m + 1) ' ' ++ more) := fun x hx => by
    obtain rfl : ' ' = x := by simpa [List.replicate_succ] using hx
    rfl
  have hfold : fold 0 ((List.replicate (0 + m + 1) ' ' ++ more).length + 1) .start
      ⟨List.replicate (0 + m + 1) ' ' ++ more, l, j + (w.flatMap spell).length, o + width (w.flatMap spell)⟩ = _ :=
    fold_blanks hmore (by simp only [List.length_append, List.length_replicate]; omega)
  rw [quotedBody_gap hw hj hends (by simp) hfold]
  simp [Fold.text]

/-- Separators between two runs are kept, and the indentation behind them is not. -/
theorem quotedBody_separators (hw : ∀ c ∈ w, Spells single (spell c) c) (hj : 0 < j)
    (hb : b = '\u2028' ∨ b = '\u2029') (hbs : ∀ b ∈ bs, b = '\u2028' ∨ b = '\u2029') (hmore : Solid more) :
    quotedBody single (n + 1) acc ⟨w.flatMap spell ++ (b :: bs ++ (List.replicate m ' ' ++ more)), l, j, o⟩ =
      quotedBody single n (acc ++ w ++ b :: bs)
        ⟨more, l + 1 + bs.length, m, o + width (w.flatMap spell) + b.utf8Size + width bs + m⟩ := by
  have hends : EndsToken (b :: bs ++ (List.replicate m ' ' ++ more)) := fun x hx => by
    obtain rfl := Option.some.inj hx
    obtain rfl | rfl := hb <;> rfl
  obtain ⟨f, hf, hfold⟩ : ∃ f, f.text = b :: bs ∧
      fold 0 ((b :: bs ++ (List.replicate m ' ' ++ more)).length + 1) .start
        ⟨b :: bs ++ (List.replicate m ' ' ++ more), l, j + (w.flatMap spell).length,
          o + width (w.flatMap spell)⟩ = some (f, _) :=
    fold_first_separator hb hbs hmore (by simp only [List.length_cons, List.length_append, List.length_replicate]; omega)
  rw [quotedBody_gap hw hj hends (by simp) hfold, hf]

end

theorem solid_quotedText (hcs : ∀ c ∈ cs, Inky breaks c → Spells single (spell c) c)
    (hhead : ∀ c ∈ cs.head?, Inky breaks c) (rest : List Char) :
    Solid (quotedText indent breaks spell false cs ++ quote single :: rest) := by
  cases cs with
  | nil => cases single <;> simp [Solid, quotedText, quote, isBlankChar, isBreakChar]
  | cons c cs =>
    have hc := hhead c rfl
    rw [quotedText, if_neg (by simp [hc.2]), List.append_assoc]
    exact (hcs c List.mem_cons_self hc).solid _

theorem quotedBody_eq (h : Runs breaks cs) (hspace : breaks ' ' = false) (hs : spell ' ' = [' ']) (hi : 0 < indent)
    (hr : rest.head? ≠ some (quote single)) : ∀ n acc l j o,
    (∀ c ∈ cs, breaks c → c = '\u2028' ∨ c = '\u2029') → (∀ c ∈ cs, Inky breaks c → Spells single (spell c) c) →
    cs.length < n → 0 < j → ∃ l' j' o',
    quotedBody single n acc ⟨quotedText indent breaks spell false cs ++ quote single :: rest, l, j, o⟩ =
      some (acc ++ cs, ⟨rest, l', j', o'⟩) ∧ l ≤ l' ∧
    ((∀ c ∈ cs, breaks c = false) →
      l' = l ∧ j < j' ∧ o' = o + width (quotedText indent breaks spell false cs) + 1) := by
  induction h with
  | @run w hw =>
    intro n acc l j o _ hspells hn hj
    obtain _ | n := n
    · simp at hn
    have hspells : ∀ c ∈ w, Spells single (spell c) c := fun c hc => hspells c hc (hw c hc)
    have htext : quotedText indent breaks spell false w = w.flatMap spell := by
      simpa [quotedText] using quotedText_word hw []
    rw [htext]
    exact ⟨_, _, _, quotedBody_quote hspells hj hr, Nat.le_refl _, fun _ => ⟨rfl, by omega, rfl⟩⟩
  | @gap w g cs p hw hg hp hor hhead _ ih =>
    intro n acc l j o hbreaks hspells hn hj
    obtain _ | n := n
    · simp at hn
    have hrun : ∀ c ∈ w, Spells single (spell c) c := fun c hc => hspells c (by simp [hc]) (hw c hc)
    have hmore : ∀ c ∈ cs, Inky breaks c → Spells single (spell c) c := fun c hc => hspells c (by simp [hc])
    have hbreaks' : ∀ c ∈ cs, breaks c → c = '\u2028' ∨ c = '\u2029' := fun c hc => hbreaks c (by simp [hc])
    have hsolid : Solid (quotedText indent breaks spell false cs ++ quote single :: rest) :=
      solid_quotedText hmore hhead rest
    have hpos := List.length_pos_iff.2 hg
    have hlength : cs.length < n := by
      simp only [List.length_append] at hn
      omega
    rw [List.append_assoc, quotedText_word hw]
    obtain rfl | rfl := hor
    · obtain ⟨m, rfl⟩ : ∃ m, g = List.replicate m ' ' := ⟨g.length, List.eq_replicate_iff.2 ⟨rfl, hp⟩⟩
      rw [List.length_replicate] at hpos
      obtain ⟨l', j', o', hrest, hl, hexact⟩ := ih n (acc ++ w ++ List.replicate m ' ') l
        (j + (w.flatMap spell).length + m) (o + width (w.flatMap spell) + m) hbreaks' hmore hlength (by omega)
      refine ⟨l', j', o', ?_, hl, fun hnone => ?_⟩
      · rw [quotedText_blanks hp hspace hs, List.append_assoc, List.append_assoc,
          quotedBody_blanks hrun hj hpos hsolid, hrest]
        simp
      · obtain ⟨rfl, hj', rfl⟩ := hexact fun c hc => hnone c (by simp [hc])
        refine ⟨rfl, by omega, ?_⟩
        rw [quotedText_blanks hp hspace hs]
        simp [width, show ' '.utf8Size = 1 from rfl]
        omega
    · obtain ⟨b, bs, rfl⟩ := List.exists_cons_of_ne_nil hg
      obtain ⟨hb, hbs⟩ := List.forall_mem_cons.1 fun c hc =>
        hbreaks c (List.mem_append_left _ (List.mem_append_right _ hc)) (hp c hc)
      obtain ⟨l', j', o', hrest, hl, -⟩ := ih n (acc ++ w ++ b :: bs) (l + 1 + bs.length) indent
        (o + width (w.flatMap spell) + b.utf8Size + width bs + indent) hbreaks' hmore hlength hi
      refine ⟨l', j', o', ?_, by omega, fun hnone => ?_⟩
      · rw [quotedText_breaks hp hg, quotedText_true fun c hc => (hhead c hc).2, List.append_assoc, List.append_assoc,
          List.append_assoc, quotedBody_separators hrun hj hb hbs hsolid, hrest]
        simp
      · exact absurd (hnone b (by simp)) (by simp [hp b List.mem_cons_self])

theorem spells_self {single : Bool} {c : Char} (hc : !(isBlankChar c || isBreakChar c)) (hquote : c ≠ quote single)
    (hescape : single = false → c ≠ '\\') : Spells single [c] c where
  solid rest x hx := Option.some.inj hx ▸ hc
  ne_nil := List.cons_ne_nil c []
  read rest l j o n acc := by
    have hgap : (⟨c :: rest, l, j, o⟩ : Cursor).atGap = false := by
      simpa [Cursor.atGap, Cursor.gapAt, Cursor.peekAt?] using hc
    have hnext : (⟨c :: rest, l, j, o⟩ : Cursor).next = ⟨rest, l, j + [c].length, o + width [c]⟩ := by
      simp [Cursor.next, width]
    rw [← hnext, List.singleton_append]
    conv_lhs => unfold quotedRun
    rw [hgap, if_neg Bool.false_ne_true]
    split <;> simp_all [quote]

/-- A quote stands twice. -/
theorem spells_quote : Spells true ['\'', '\''] '\'' where
  solid rest x hx := by
    obtain rfl := Option.some.inj hx
    rfl
  ne_nil := List.cons_ne_nil _ _
  read rest l j o n acc := rfl

/-- An escape is read by the characters behind the backslash. -/
theorem spells_escape {us : List Char} {x : Char} (hx : isBreakChar x = false)
    (h : ∀ rest l j o, escape ⟨x :: us ++ rest, l, j, o⟩ =
      some (c, ⟨rest, l, j + (us.length + 1), o + width (x :: us)⟩)) : Spells false ('\\' :: x :: us) c where
  solid rest y hy := by
    obtain rfl := Option.some.inj hy
    rfl
  ne_nil := List.cons_ne_nil _ _
  read rest l j o n acc := by
    have hgap : (⟨'\\' :: x :: us ++ rest, l, j, o⟩ : Cursor).atGap = false := rfl
    have hnext : (⟨'\\' :: x :: us ++ rest, l, j, o⟩ : Cursor).next = ⟨x :: us ++ rest, l, j + 1, o + 1⟩ := rfl
    have hescape := h rest l (j + 1) (o + 1)
    conv_lhs => unfold quotedRun
    rw [hgap, if_neg Bool.false_ne_true]
    simp only [List.cons_append, hx, Bool.false_eq_true, if_false] at hnext hescape ⊢
    rw [hnext, hescape]
    simp [width, Nat.add_assoc, Nat.add_comm 1, show '\\'.utf8Size = 1 from rfl]

theorem length_hexDigits (n w : Nat) : (Pen.hexDigits n w).length = w := by
  induction w generalizing n with
  | zero => rfl
  | succ w ih => simp [Pen.hexDigits, ih]

theorem hexValue?_upperHexDigit {d : Nat} (h : d < 16) : Text.hexValue? (Pen.upperHexDigit d) = some d := by
  have hall : ∀ d < 16, Text.hexValue? (Pen.upperHexDigit d) = some d := by decide
  exact hall d h

theorem mapM_hexDigits (n w : Nat) : ∃ ds, (Pen.hexDigits n w).mapM Text.hexValue? = some ds ∧ ds.length = w ∧
    ds.foldl (fun n d => 16 * n + d) 0 = n % 16 ^ w := by
  induction w generalizing n with
  | zero => exact ⟨[], rfl, rfl, (Nat.mod_one n).symm⟩
  | succ w ih =>
    obtain ⟨ds, hds, hlength, hvalue⟩ := ih (n / 16)
    refine ⟨ds ++ [n % 16], ?_, by simp [hlength], ?_⟩
    · rw [Pen.hexDigits, List.mapM_append, hds]
      simp [hexValue?_upperHexDigit (Nat.mod_lt n (by decide : 0 < 16))]
    · rw [List.foldl_append, hvalue, List.foldl_cons, List.foldl_nil, Nat.pow_succ, Nat.mul_comm (16 ^ w),
        Nat.mod_mul]
      omega

theorem charOfNumber?_toNat (c : Char) : Text.charOfNumber? c.toNat = some c := by
  have hvalid : c.toNat < 0xD800 ∨ 0xDFFF < c.toNat ∧ c.toNat < 0x110000 := c.valid
  have hrange : ¬((decide (0xD800 ≤ c.toNat) && decide (c.toNat ≤ 0xDFFF) || decide (0x10FFFF < c.toNat)) = true) := by
    simp
    omega
  rw [Text.charOfNumber?, if_neg hrange, Char.ofNat_toNat]

theorem hexChar_hexDigits {w : Nat} (h : c.toNat < 16 ^ w) (rest : List Char) (l j o : Nat) :
    hexChar w ⟨Pen.hexDigits c.toNat w ++ rest, l, j, o⟩ =
      some (c, ⟨rest, l, j + w, o + width (Pen.hexDigits c.toNat w)⟩) := by
  obtain ⟨ds, hds, hlength, hvalue⟩ := mapM_hexDigits c.toNat w
  have htake : (Pen.hexDigits c.toNat w ++ rest).take w = Pen.hexDigits c.toNat w :=
    List.take_left' (length_hexDigits c.toNat w)
  have hskip := Cursor.skip_append (Pen.hexDigits c.toNat w) rest l j o
  rw [length_hexDigits] at hskip
  rw [Nat.mod_eq_of_lt h] at hvalue
  simp [hexChar, Text.takeHexChar, Text.takeHex, htake, hds, hlength, hvalue, charOfNumber?_toNat, hskip]

/-- A character that is not shown is told by its number. -/
theorem spells_hex {x : Char} {w : Nat} (hx : isBreakChar x = false) (hc : c.toNat < 16 ^ w)
    (h : ∀ rest l j o, escape ⟨x :: rest, l, j, o⟩ = hexChar w ⟨rest, l, j + 1, o + x.utf8Size⟩) :
    Spells false ('\\' :: x :: Pen.hexDigits c.toNat w) c := by
  refine spells_escape hx fun rest l j o => ?_
  rw [List.cons_append, h, hexChar_hexDigits hc, length_hexDigits]
  simp [width, Nat.add_assoc, Nat.add_comm 1]

theorem spells_doubleChar (hc : c ≠ ' ') : Spells false (Pen.doubleChar c) c := by
  unfold Pen.doubleChar
  split
  iterate 14 exact spells_escape rfl fun rest l j o => rfl
  next hquote hescape _ _ _ htab hfeed _ _ hreturn _ hnel hline hparagraph =>
    split_ifs with hshown hbyte hword
    · refine spells_self ?_ hquote fun _ => hescape
      simp only [isBlankChar, isBreakChar, Bool.not_eq_true', Bool.or_eq_false_iff, beq_eq_false_iff_ne]
      exact ⟨⟨hc, htab⟩, ⟨⟨⟨hreturn, hfeed⟩, hnel⟩, hline⟩, hparagraph⟩
    · exact spells_hex (w := 2) rfl (by omega) fun _ _ _ _ => rfl
    · exact spells_hex (w := 4) rfl (by omega) fun _ _ _ _ => rfl
    · have hvalid : c.toNat < 0xD800 ∨ 0xDFFF < c.toNat ∧ c.toNat < 0x110000 := c.valid
      exact spells_hex (w := 8) rfl (by omega) fun _ _ _ _ => rfl

theorem length_le_quotedText {broken : Bool} (hs : ∀ c ∈ cs, breaks c = false → spell c ≠ []) :
    cs.length ≤ (quotedText indent breaks spell broken cs).length := by
  induction cs generalizing broken with
  | nil => simp
  | cons c cs ih =>
    obtain ⟨hc, hs⟩ := List.forall_mem_cons.1 hs
    rw [quotedText]
    split
    · simpa using ih hs
    next hbreak =>
      have hpos := List.length_pos_iff.2 (hc (by simpa using hbreak))
      have : cs.length ≤ (quotedText indent breaks spell false cs).length := ih hs
      simp only [List.length_append, List.length_cons]
      omega

theorem quoted_eq (hq : Quotable single breaks spell cs) (hspace : breaks ' ' = false) (hi : 0 < indent)
    (hr : rest.head? ≠ some (quote single)) (l j o : Nat) : ∃ l' j' o',
    quoted single ⟨quote single :: (quotedText indent breaks spell false cs ++ quote single :: rest), l, j, o⟩ =
      some (.scalar .other (.ofList cs), ⟨rest, l', j', o'⟩) ∧ l ≤ l' ∧
    ((∀ c ∈ cs, breaks c = false) →
      l' = l ∧ j < j' ∧ o' = o + width (quotedText indent breaks spell false cs) + 2) := by
  have hwidth : (quote single).utf8Size = 1 := by cases single <;> rfl
  have hne : ∀ c ∈ cs, breaks c = false → spell c ≠ [] := fun c hc hbreak => by
    by_cases he : c = ' '
    · rw [he, hq.space]
      exact List.cons_ne_nil _ _
    · exact (hq.spells c hc hbreak he).ne_nil
  have hlength : cs.length ≤ (quotedText indent breaks spell false cs).length := length_le_quotedText hne
  obtain ⟨l', j', o', hbody, hl, hexact⟩ := quotedBody_eq (hq.runs hspace) hspace hq.space hi hr
    ((quotedText indent breaks spell false cs ++ quote single :: rest).length + 2) [] l (j + 1) (o + 1) hq.breaks_eq
    (fun c hc hink => hq.spells c hc hink.2 hink.1) (by simp; omega) (Nat.succ_pos j)
  refine ⟨l', j', o', ?_, hl, fun hnone => ?_⟩
  · rw [quoted]
    simp only [Cursor.next, hwidth, List.length_cons]
    rw [hbody]
    rfl
  · obtain ⟨hl', hj', ho'⟩ := hexact hnone
    exact ⟨hl', by omega, by omega⟩

end Lexeme

/-- How a character is written between single quotes. -/
def singleChar (c : Char) : List Char := if c = '\'' then ['\'', '\''] else [c]

section

variable {cs : List Char}

theorem apart_of_hasPair {p q : Char → Bool} (h : hasPair p q cs = false) {a b : List Char} {c d : Char}
    (he : cs = a ++ c :: d :: b) (hc : p c) : q d = false := by
  subst he
  induction a with
  | nil => simpa [hasPair, hc] using (Bool.or_eq_false_iff.1 h).1
  | cons x a ih => exact ih (Bool.or_eq_false_iff.1 h).2

open Lexeme

theorem quotable_double (cs : List Char) : Quotable false (fun _ => false) Pen.doubleChar cs where
  space := rfl
  breaks_eq := nofun
  spells c _ _ hc := spells_doubleChar hc
  apart := by simp

theorem separator_of_shown {c : Char} (hs : isShown c) (hfeed : c ≠ '\n') (hb : isBreakChar c) :
    c = '\u2028' ∨ c = '\u2029' := by
  simp only [isBreakChar, Bool.or_eq_true, beq_iff_eq] at hb
  obtain (((rfl | rfl) | rfl) | hc) | hc := hb
  · exact absurd hs (by decide)
  · exact absurd rfl hfeed
  · exact absurd hs (by decide)
  · exact .inl hc
  · exact .inr hc

/-- A text that may stand between single quotes is read from between them. -/
theorem quotable_single (h : (Demands.ofChars cs).single) (hfeed : '\n' ∉ cs) :
    Quotable true isBreakChar singleChar cs := by
  simp only [Demands.single, Bool.not_eq_true', Bool.or_eq_false_iff] at h
  obtain ⟨⟨hspecial, hbreakSpace⟩, hspaceBreak⟩ := h
  have hshown := isShown_of_ordinary hspecial
  refine ⟨rfl, fun c hc hb => separator_of_shown (hshown c hc) (fun he => hfeed (he ▸ hc)) hb, fun c hc hb hne => ?_,
    fun a c d b he => ⟨fun hc hd => ?_, fun hc => ?_⟩⟩
  · have htab : c ≠ '\t' := by
      rintro rfl
      exact absurd (hshown _ hc) (by decide)
    unfold singleChar
    split
    next hq => exact hq ▸ spells_quote
    next hq => exact spells_self (by simp [isBlankChar, hb, hne, htab]) (by simpa [quote] using hq) nofun
  · have := apart_of_hasPair hbreakSpace he hc
    simp [isSpaceChar, hd] at this
  · exact apart_of_hasPair hspaceBreak he (by simp [isSpaceChar, hc])

end

namespace TokenStream

variable {single : Bool} {breaks : Char → Bool} {spell : Char → List Char} {cs rest : List Char} {ts : List Token}
  {is : List Nat} {b : Bool} {l j o indent : Nat}

theorem nextToken_quote (rest : List Char) : nextToken ⟨⟨Lexeme.quote single :: rest, l, j, o⟩, ts, is, [none], b⟩
    (Lexeme.quote single) =
      nodeStart ⟨⟨Lexeme.quote single :: rest, l, j, o⟩, ts, is, [none], b⟩ (Lexeme.quoted single) := by
  cases single <;> simp [nextToken, Lexeme.quote, Cursor.atMarker, List.isPrefixOf]

/-- A quoted scalar at the start of a token. -/
theorem nextToken_quoted (hq : Lexeme.Quotable single breaks spell cs) (hspace : breaks ' ' = false) (hi : 0 < indent)
    (hr : rest.head? ≠ some (Lexeme.quote single)) (l j o : Nat) (ts : List Token) (is : List Nat) (b : Bool) :
    let c : Cursor := ⟨Lexeme.quote single :: (quotedText indent breaks spell false cs ++ Lexeme.quote single :: rest),
      l, j, o⟩
    ∃ l' j' o', nextToken ⟨c, ts, is, [none], b⟩ (Lexeme.quote single) =
      some ⟨⟨rest, l', j', o'⟩, .scalar .other (.ofList cs) :: ts, is, [saved c ts is b], false⟩ ∧ l ≤ l' ∧
    ((∀ c ∈ cs, breaks c = false) →
      l' = l ∧ j < j' ∧ o' = o + width (quotedText indent breaks spell false cs) + 2) := by
  obtain ⟨l', j', o', hquoted, hl⟩ := Lexeme.quoted_eq hq hspace hi hr l j o
  refine ⟨l', j', o', ?_, hl⟩
  rw [nextToken_quote, nodeStart, saveKey_eq]
  simp only [Option.bind_eq_bind, Option.bind_some]
  rw [hquoted]
  rfl

end TokenStream

end OperatorScaffold.Yaml

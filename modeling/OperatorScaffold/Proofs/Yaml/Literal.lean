import Mathlib.Data.List.Basic
import OperatorScaffold.Proofs.Text.Lines
import OperatorScaffold.Proofs.Yaml.Word
import OperatorScaffold.Yaml.Printer
/-!
Literal blocks. The lines of a text stand below the indicator, all at one column; how the text ends is told by
the sign behind the indicator.
-/

namespace OperatorScaffold.Yaml

open Cursor (isBreakChar isBlankChar width)

/-- The lines of a text. A line feed ends its line, so that there is no empty line behind the last one. -/
def textLines : List Char → List (List Char)
  | [] => []
  | c :: cs =>
    if c = '\n' then [] :: textLines cs
    else match textLines cs with
      | [] => [[c]]
      | l :: ls => (c :: l) :: ls

/-- A line of a literal block at the column `i`; of an empty line no more than a margin is left. -/
def blockLine (margin i : Nat) (line : List Char) : List Char :=
  if line.isEmpty then List.replicate margin ' ' else List.replicate i ' ' ++ line

/-- The lines of a block, each with its line end. -/
def blockText (margin i : Nat) (ls : List (List Char)) : List Char := ls.flatMap fun l => blockLine margin i l ++ ['\n']

/-- A literal block, up to the line end behind its last line. -/
def literalText (margin i : Nat) (cs : List Char) : List Char :=
  '|' :: Pen.literalHints cs ++ (textLines cs).flatMap fun l => '\n' :: blockLine margin i l

section

variable {cs l : List Char}

theorem textLines_of_no_feed (hne : cs ≠ []) (h : '\n' ∉ cs) : textLines cs = [cs] := by
  induction cs with
  | nil => exact absurd rfl hne
  | cons c cs ih =>
    rw [List.mem_cons, not_or] at h
    rw [textLines, if_neg (Ne.symm h.1)]
    cases cs with
    | nil => rfl
    | cons d cs => rw [ih (List.cons_ne_nil d cs) h.2]

theorem textLines_line (h : '\n' ∉ l) (cs : List Char) : textLines (l ++ '\n' :: cs) = l :: textLines cs := by
  induction l with
  | nil => exact if_pos rfl
  | cons c l ih =>
    rw [List.mem_cons, not_or] at h
    rw [List.cons_append, textLines, if_neg (Ne.symm h.1), ih h.2]

theorem mem_of_mem_textLines {line : List Char} {x : Char} (hl : line ∈ textLines cs) (hx : x ∈ line) :
    x ∈ cs ∧ x ≠ '\n' := by
  induction cs using Text.lines_induction with
  | last cs h =>
    obtain rfl | hne := eq_or_ne cs []
    · cases hl
    · rw [textLines_of_no_feed hne h, List.mem_singleton] at hl
      subst hl
      exact ⟨hx, fun he => h (he ▸ hx)⟩
  | line l cs h ih =>
    rw [textLines_line h] at hl
    obtain rfl | hl := List.mem_cons.1 hl
    · exact ⟨List.mem_append_left _ hx, fun he => h (he ▸ hx)⟩
    · exact ⟨List.mem_append_right _ (List.mem_cons_of_mem _ (ih hl).1), (ih hl).2⟩

theorem exists_textLines_cons {x : Char} (hx : x ≠ '\n') (cs : List Char) :
    ∃ l ls, textLines (x :: cs) = (x :: l) :: ls := by
  rw [textLines, if_neg hx]
  cases textLines cs with
  | nil => exact ⟨[], [], rfl⟩
  | cons l ls => exact ⟨l, ls, rfl⟩

/-- With their line ends the lines are the text again, and a line feed more if it ends with none. -/
theorem flatMap_textLines (hne : cs ≠ []) : (textLines cs).flatMap (· ++ ['\n']) =
    if cs.getLast? = some '\n' then cs else cs ++ ['\n'] := by
  induction cs using Text.lines_induction with
  | last cs h =>
    have hlast : cs.getLast? ≠ some '\n' := fun he => h (List.mem_of_getLast? he)
    rw [textLines_of_no_feed hne h, if_neg hlast]
    simp
  | line l cs h ih =>
    rw [textLines_line h, List.flatMap_cons]
    obtain rfl | hcs := eq_or_ne cs []
    · simp [textLines]
    · have hlast : (l ++ '\n' :: cs).getLast? = cs.getLast? := by
        obtain ⟨c, cs, rfl⟩ := List.exists_cons_of_ne_nil hcs
        simp [List.getLast?_append, List.getLast?_cons]
      rw [ih hcs, hlast]
      split <;> simp

theorem textLines_ne_nil (hne : cs ≠ []) : textLines cs ≠ [] := by
  intro he
  have hflat := flatMap_textLines hne
  rw [he] at hflat
  split at hflat
  · exact hne hflat.symm
  · simp at hflat

/-- The last line is empty only behind another line feed, or if it is the only one. -/
theorem of_getLast?_textLines (h : (textLines cs).getLast? = some []) :
    cs = ['\n'] ∨ ∃ init, cs = init ++ ['\n', '\n'] := by
  induction cs using Text.lines_induction with
  | last cs hfeed =>
    obtain rfl | hne := eq_or_ne cs []
    · cases h
    · rw [textLines_of_no_feed hne hfeed] at h
      exact absurd (Option.some.inj h) hne
  | line l cs hfeed ih =>
    rw [textLines_line hfeed] at h
    obtain rfl | hcs := eq_or_ne cs []
    · obtain rfl : l = [] := Option.some.inj h
      exact .inl rfl
    · obtain ⟨x, xs, hx⟩ := List.exists_cons_of_ne_nil (textLines_ne_nil hcs)
      rw [hx, List.getLast?_cons_cons, ← hx] at h
      obtain rfl | ⟨init, rfl⟩ := ih h
      · exact .inr ⟨l, rfl⟩
      · exact .inr ⟨l ++ '\n' :: init, by simp⟩

end

namespace Lexeme

variable {rest line more acc : List Char} {L : List (List Char)} {l o n d i j margin : Nat}

theorem takeWhile_blanks (n : Nat) (hr : rest.head? ≠ some ' ') :
    (List.replicate n ' ' ++ rest).takeWhile (· == ' ') = List.replicate n ' ' := by
  rw [List.takeWhile_append_of_pos (by simp)]
  cases rest with
  | nil => simp
  | cons x r =>
    have hx : x ≠ ' ' := by simpa using hr
    simp [hx]

/-- An empty line, with or without a margin. -/
theorem emptyLines_blank (hm : margin ≤ i) (hi : 0 < i) :
    emptyLines i (n + 1) d acc ⟨List.replicate margin ' ' ++ '\n' :: rest, l, 0, o⟩ =
      emptyLines i n (max d margin) (acc ++ ['\n']) ⟨rest, l + 1, 0, o + margin + 1⟩ := by
  have htab : (⟨'\n' :: rest, l, margin, o + margin⟩ : Cursor).atChar '\t' = false := rfl
  rw [emptyLines]
  simp only [takeWhile_blanks margin (by simp : ('\n' :: rest).head? ≠ some ' '), List.length_replicate,
    Nat.pos_iff_ne_zero.1 hi, if_false, Nat.sub_zero, Nat.min_eq_left hm, Cursor.skip_blanks, Nat.zero_add, htab,
    Bool.and_false, Bool.false_eq_true]
  rfl

/-- The first line that is not empty starts behind its indentation. -/
theorem emptyLines_stop {p : Nat} (hp : (if i = 0 then ((List.replicate p ' ' ++ rest).takeWhile (· == ' ')).length
      else min ((List.replicate p ' ' ++ rest).takeWhile (· == ' ')).length i) = p)
    (hbreak : ∀ x ∈ rest.head?, isBreakChar x = false) (htab : (i = 0 ∨ p < i) → rest.head? ≠ some '\t') :
    emptyLines i (n + 1) d acc ⟨List.replicate p ' ' ++ rest, l, 0, o⟩ = some (acc, max d p, ⟨rest, l, p, o + p⟩) := by
  have hatBreak : (⟨rest, l, p, o + p⟩ : Cursor).atBreak = false := by
    cases rest with
    | nil => rfl
    | cons x r => simpa [Cursor.atBreak, Cursor.peek?] using hbreak x rfl
  have hatTab : ((decide (i = 0) || decide (p < i)) && (⟨rest, l, p, o + p⟩ : Cursor).atChar '\t') = false := by
    rw [Bool.and_eq_false_iff]
    by_cases h : i = 0 ∨ p < i
    · exact .inr (by simpa [Cursor.atChar, Cursor.peek?] using htab h)
    · exact .inl (by simpa using h)
  rw [emptyLines]
  simp only [Nat.sub_zero, hp, Cursor.skip_blanks, Nat.zero_add, hatTab, hatBreak, Bool.false_eq_true, if_false]

/-- The block ends at a line that starts further left. -/
theorem emptyLines_end (hr : Starts rest) (hj : j < i) :
    emptyLines i (n + 1) d acc ⟨List.replicate j ' ' ++ rest, l, 0, o⟩ =
      some (acc, max d j, ⟨rest, l, j, o + j⟩) := by
  have hhead : ∀ x ∈ rest.head?, x ≠ ' ' ∧ x ≠ '\t' ∧ isBreakChar x = false := by
    intro x hx
    have h := hr x hx
    simp [isTokenChar] at h
    simp [h]
  refine emptyLines_stop ?_ (fun x hx => (hhead x hx).2.2) fun _ hx => (hhead _ hx).2.1 rfl
  rw [takeWhile_blanks j fun hx => (hhead _ hx).1 rfl, if_neg (by omega), List.length_replicate]
  omega

/-- Blanks at the start of a line are part of it. -/
theorem emptyLines_line (hi : 0 < i) (hne : line ≠ []) (hl : ∀ x ∈ line, isBreakChar x = false) :
    emptyLines i (n + 1) d acc ⟨List.replicate i ' ' ++ (line ++ rest), l, 0, o⟩ =
      some (acc, max d i, ⟨line ++ rest, l, i, o + i⟩) := by
  obtain ⟨x, line, rfl⟩ := List.exists_cons_of_ne_nil hne
  refine emptyLines_stop ?_ (fun y hy => Option.some.inj hy ▸ hl x List.mem_cons_self) (by omega)
  rw [if_neg (by omega), List.takeWhile_append_of_pos (by simp)]
  simp

theorem length_le_blockText (margin i : Nat) (L : List (List Char)) : L.length ≤ (blockText margin i L).length := by
  induction L with
  | nil => simp
  | cons line L ih =>
    simp only [blockText, List.flatMap_cons, List.length_append, List.length_cons, List.length_nil] at ih ⊢
    omega

theorem blockLines_line {s : BlockState} (hl : ∀ x ∈ line, isBreakChar x = false) :
    blockLines true i (n + 1) s ⟨line ++ '\n' :: more, l, i, o⟩ =
      (emptyLines i (more.length + 1) 0 [] ⟨more, l + 1, 0, o + width line + 1⟩).bind fun p =>
        blockLines true i n ⟨s.text ++ s.lastBreak ++ s.breaks ++ line, ['\n'], p.1,
          (⟨line ++ '\n' :: more, l, i, o⟩ : Cursor).atBlank⟩ p.2.2 := by
  have hend : (⟨line ++ '\n' :: more, l, i, o⟩ : Cursor).atEnd = false := by simp [Cursor.atEnd]
  have htake : (⟨line ++ '\n' :: more, l, i, o⟩ : Cursor).takeWhile (fun x => !isBreakChar x) =
      (line, ⟨'\n' :: more, l, i + line.length, o + width line⟩) := by
    have hline : (line ++ '\n' :: more).takeWhile (fun x => !isBreakChar x) = line := by
      rw [List.takeWhile_append_of_pos (by simpa using hl)]
      simp [isBreakChar]
    rw [Cursor.takeWhile, hline, Cursor.skip_append]
  rw [blockLines]
  simp only [hend, htake, bne_self_eq_false, Bool.or_self, Bool.false_eq_true, if_false, Bool.not_true, Bool.false_and]
  rfl

theorem blockLines_stop {s : BlockState} (hj : j < i) :
    blockLines true i (n + 1) s ⟨rest, l, j, o⟩ = some (s, ⟨rest, l, j, o⟩) := by
  have hcolumn : (j != i) = true := by simpa using Nat.ne_of_lt hj
  rw [blockLines]
  simp only [hcolumn, Bool.true_or, if_true]

/-- The lines that are left of a block are put to what has been read of it. Their last one is not followed by
breaks, unless it is empty. -/
def ReadsOn (margin i j : Nat) (rest : List Char) (L : List (List Char)) : Prop :=
  ∀ (n d l o : Nat) (text joint acc : List Char) (indented : Bool), L.length < n → ∃ bs d' c s l' o',
    emptyLines i n d acc ⟨blockText margin i L ++ (List.replicate j ' ' ++ rest), l, 0, o⟩ = some (bs, d', c) ∧
    c.rest.length ≤ (blockText margin i L ++ (List.replicate j ' ' ++ rest)).length ∧
    (∀ m, c.rest.length < m →
      blockLines true i m ⟨text, joint, bs, indented⟩ c = some (s, ⟨rest, l', j, o'⟩)) ∧
    s.text ++ s.lastBreak ++ s.breaks = text ++ joint ++ acc ++ L.flatMap (· ++ ['\n']) ∧
    ((L = [] → joint = ['\n'] ∧ acc = []) → L.getLast? ≠ some [] → s.lastBreak = ['\n'] ∧ s.breaks = [])

namespace ReadsOn

theorem nil (hr : Starts rest) (hj : j < i) : ReadsOn margin i j rest [] := by
  intro n d l o text joint acc indented hn
  obtain _ | n := n
  · simp at hn
  refine ⟨acc, _, _, ⟨text, joint, acc, indented⟩, l, o + j, emptyLines_end hr hj, by simp [blockText],
    fun m hm => ?_, by simp, fun h _ => h rfl⟩
  obtain _ | m := m
  · simp at hm
  exact blockLines_stop hj

theorem getLast?_ne_of_cons (h : (line :: L).getLast? ≠ some []) (hne : L ≠ []) : L.getLast? ≠ some [] := by
  obtain ⟨x, L, rfl⟩ := List.exists_cons_of_ne_nil hne
  simpa [List.getLast?_cons_cons] using h

/-- An empty line is one more break behind what has been read. -/
theorem empty (hm : margin ≤ i) (hi : 0 < i) (h : ReadsOn margin i j rest L) : ReadsOn margin i j rest ([] :: L) := by
  intro n d l o text joint acc indented hn
  obtain _ | n := n
  · simp at hn
  obtain ⟨more, hmore⟩ : ∃ more, blockText margin i L ++ (List.replicate j ' ' ++ rest) = more := ⟨_, rfl⟩
  have htail : blockText margin i ([] :: L) ++ (List.replicate j ' ' ++ rest) =
      List.replicate margin ' ' ++ '\n' :: more := by
    simp [← hmore, blockText, blockLine]
  obtain ⟨bs, d', c, s, l', o', hlines, hlength, hblock, htext, hs⟩ := h n (max d margin) (l + 1)
    (o + margin + 1) text joint (acc ++ ['\n']) indented (Nat.lt_of_succ_lt_succ hn)
  rw [hmore] at hlines hlength
  refine ⟨bs, d', c, s, l', o', ?_, ?_, hblock, by simpa using htext, fun _ hlast => ?_⟩
  · rw [htail, emptyLines_blank hm hi, hlines]
  · rw [htail]
    simp
    omega
  · have hne : L ≠ [] := by
      rintro rfl
      exact hlast rfl
    exact hs (fun he => absurd he hne) (getLast?_ne_of_cons hlast hne)

/-- A line that is not empty goes to the text, and the breaks behind it are counted anew. -/
theorem full (hi : 0 < i) (hne : line ≠ []) (hline : ∀ x ∈ line, isBreakChar x = false)
    (h : ReadsOn margin i j rest L) : ReadsOn margin i j rest (line :: L) := by
  intro n d l o text joint acc indented hn
  obtain _ | n := n
  · simp at hn
  obtain ⟨more, hmore⟩ : ∃ more, blockText margin i L ++ (List.replicate j ' ' ++ rest) = more := ⟨_, rfl⟩
  have htail : blockText margin i (line :: L) ++ (List.replicate j ' ' ++ rest) =
      List.replicate i ' ' ++ (line ++ '\n' :: more) := by
    simp [← hmore, blockText, blockLine, hne]
  have hfuel : L.length < more.length + 1 := by
    have := length_le_blockText margin i L
    rw [← hmore, List.length_append]
    omega
  obtain ⟨bs, d', c, s, l', o', hlines, hlength, hblock, htext, hs⟩ := h (more.length + 1) 0 (l + 1)
    (o + i + width line + 1) (text ++ joint ++ acc ++ line) ['\n'] []
    (⟨line ++ '\n' :: more, l, i, o + i⟩ : Cursor).atBlank hfuel
  rw [hmore] at hlines hlength
  refine ⟨acc, max d i, ⟨line ++ '\n' :: more, l, i, o + i⟩, s, l', o', ?_, ?_, fun m hm => ?_,
    by simpa using htext, fun _ hlast => ?_⟩
  · rw [htail, emptyLines_line hi hne hline]
  · rw [htail]
    simp
  · obtain _ | m := m
    · simp at hm
    rw [blockLines_line hline, hlines]
    exact hblock m (by simp at hm; omega)
  · by_cases hL : L = []
    · exact hs (fun _ => ⟨rfl, rfl⟩) (by simp [hL])
    · exact hs (fun _ => ⟨rfl, rfl⟩) (getLast?_ne_of_cons hlast hL)

end ReadsOn

theorem readsOn (hm : margin ≤ i) (hi : 0 < i) (hr : Starts rest) (hj : j < i)
    (hL : ∀ line ∈ L, ∀ x ∈ line, isBreakChar x = false) : ReadsOn margin i j rest L := by
  induction L with
  | nil => exact .nil hr hj
  | cons line L ih =>
    obtain ⟨hline, hL⟩ := List.forall_mem_cons.1 hL
    by_cases hempty : line = []
    · exact hempty ▸ (ih hL).empty hm hi
    · exact (ih hL).full hi hempty hline

section

variable {cs : List Char}

/-- The sign for what becomes of the line ends at the end. -/
def sign : Chomping → List Char
  | .strip => ['-']
  | .clip => []
  | .keep => ['+']

/-- The indentation is given for a text that starts with a blank or an empty line. -/
def given (cs : List Char) : Bool := cs.head?.any fun c => c == ' ' || isBreakChar c

/-- What is left of the lines and their ends, when the last ones are taken as the sign says. -/
def Chomps (cs : List Char) : Chomping → Prop
  | .strip => (textLines cs).flatMap (· ++ ['\n']) = cs ++ ['\n'] ∧ (textLines cs).getLast? ≠ some []
  | .clip => (textLines cs).flatMap (· ++ ['\n']) = cs ∧ (textLines cs).getLast? ≠ some []
  | .keep => (textLines cs).flatMap (· ++ ['\n']) = cs

/-- The hints tell where a text starts and how it ends. -/
theorem exists_sign (hne : cs ≠ []) (hb : ∀ x ∈ cs, isBreakChar x → x = '\n') : ∃ chomping, Chomps cs chomping ∧
    Pen.literalHints cs = (if given cs then ['2'] else []) ++ sign chomping := by
  have hfeed {x : Char} (hx : x ∈ cs) : isBreakChar x = decide (x = '\n') := by
    by_cases he : x = '\n'
    · simp [he, isBreakChar]
    · simpa [he] using fun h => he (hb x hx h)
  have hlines := flatMap_textLines hne
  have hlast : (textLines cs).getLast? = some [] → cs = ['\n'] ∨ ∃ init, cs = init ++ ['\n', '\n'] :=
    of_getLast?_textLines
  obtain ⟨init, c, rfl⟩ := (List.eq_nil_or_concat' cs).resolve_left hne
  rw [List.getLast?_concat] at hlines
  have hc := hfeed (x := c) (by simp)
  by_cases hline : c = '\n'
  · subst hline
    rw [if_pos rfl] at hlines
    obtain rfl | ⟨init, d, rfl⟩ := List.eq_nil_or_concat' init
    · exact ⟨.keep, hlines, rfl⟩
    · have hd := hfeed (x := d) (by simp)
      by_cases hd' : d = '\n'
      · exact ⟨.keep, hlines, by simp [Pen.literalHints, given, sign, hc, hd']⟩
      · refine ⟨.clip, ⟨hlines, fun he => ?_⟩, by simp [Pen.literalHints, given, sign, hc, hd, hd']⟩
        obtain he | ⟨more, he⟩ := hlast he
        · simpa using congrArg List.length he
        · rw [List.append_assoc] at he
          exact hd' (by simpa using (List.append_inj' he rfl).2)
  · rw [if_neg (by simpa using hline)] at hlines
    refine ⟨.strip, ⟨hlines, fun he => ?_⟩, ?_⟩
    · obtain he | ⟨more, he⟩ := hlast he
      · exact hline (by simpa using congrArg List.getLast? he)
      · exact hline (by simpa using congrArg List.getLast? he)
    · obtain rfl | ⟨init, d, rfl⟩ := List.eq_nil_or_concat' init <;>
        simp [Pen.literalHints, given, sign, hc, hline]

/-- Of lines that are read with their ends, the text keeps the ends that the sign leaves. -/
theorem Chomps.text_eq {ch : Chomping} {text last breaks : List Char} (h : Chomps cs ch)
    (htext : text ++ last ++ breaks = (textLines cs).flatMap (· ++ ['\n']))
    (hlast : (textLines cs).getLast? ≠ some [] → last = ['\n'] ∧ breaks = []) :
    text ++ (if ch = .strip then [] else last) ++ (if ch = .keep then breaks else []) = cs := by
  cases ch with
  | strip =>
    obtain ⟨hlast, hbreaks⟩ := hlast h.2
    rw [hlast, hbreaks, List.append_nil, h.1] at htext
    simpa using List.append_cancel_right htext
  | clip =>
    obtain ⟨-, hbreaks⟩ := hlast h.2
    rw [hbreaks, h.1] at htext
    simpa using htext
  | keep =>
    rw [show _ = cs from h] at htext
    simpa using htext

theorem blockHeader_eq (g : Bool) (ch : Chomping) (rest : List Char) (l j o : Nat) : ∃ j' o',
    blockHeader ⟨(if g then ['2'] else []) ++ sign ch ++ '\n' :: rest, l, j, o⟩ =
      some (ch, if g then 2 else 0, ⟨'\n' :: rest, l, j', o'⟩) := by
  cases g <;> cases ch <;> exact ⟨_, _, rfl⟩

/-- Without a given indentation it is that of the first line. -/
theorem emptyLines_unknown {x : Char} (hx : isBlankChar x = false) (hb : isBreakChar x = false) :
    emptyLines 0 (n + 1) 0 [] ⟨List.replicate i ' ' ++ x :: rest, l, 0, o⟩ =
      some ([], i, ⟨x :: rest, l, i, o + i⟩) := by
  simp only [isBlankChar, Bool.or_eq_false_iff, beq_eq_false_iff_ne] at hx
  have hhead : (x :: rest).head? ≠ some ' ' := by simpa using hx.1
  have h : emptyLines 0 (n + 1) 0 [] ⟨List.replicate i ' ' ++ x :: rest, l, 0, o⟩ =
      some ([], max 0 i, ⟨x :: rest, l, i, o + i⟩) :=
    emptyLines_stop (by rw [takeWhile_blanks i hhead]; simp) (by simpa using hb) (by simpa using hx.2)
  rwa [Nat.zero_max] at h

/-- With a given indentation the lines are read at once; else the first one tells it. -/
theorem emptyLines_given {p d : Nat} {acc : List Char} {c : Cursor} (hne : cs ≠ []) (htab : cs.head? ≠ some '\t')
    (hlines : ∀ line ∈ textLines cs, ∀ x ∈ line, isBreakChar x = false)
    (h : emptyLines (p + 2) (n + 1) 0 []
      ⟨blockText margin (p + 2) (textLines cs) ++ rest, l, 0, o⟩ = some (acc, d, c)) :
    ∃ deepest, emptyLines (if given cs then p + 2 else 0) (n + 1) 0 []
      ⟨blockText margin (p + 2) (textLines cs) ++ rest, l, 0, o⟩ = some (acc, deepest, c) ∧
      (given cs = false → deepest = p + 2) := by
  cases hg : given cs with
  | true => exact ⟨d, h, nofun⟩
  | false =>
    obtain ⟨x, r, rfl⟩ := List.exists_cons_of_ne_nil hne
    simp only [given, List.head?_cons, Option.any_some, Bool.or_eq_false_iff, beq_eq_false_iff_ne] at hg
    have hblank : isBlankChar x = false := by
      have hx : x ≠ '\t' := by simpa using htab
      simp [isBlankChar, hg.1, hx]
    have hfeed : x ≠ '\n' := by
      rintro rfl
      exact absurd hg.2 (by decide)
    obtain ⟨line, L, hL⟩ := exists_textLines_cons hfeed r
    have htail : ∃ tail, blockText margin (p + 2) (textLines (x :: r)) ++ rest =
        List.replicate (p + 2) ' ' ++ (x :: line ++ tail) :=
      ⟨_, by rw [hL]; simp [blockText, blockLine]; rfl⟩
    obtain ⟨tail, htail⟩ := htail
    rw [htail, emptyLines_line (Nat.succ_pos _) (List.cons_ne_nil x line) (hlines _ (hL ▸ List.mem_cons_self))] at h
    obtain ⟨rfl, -, rfl⟩ : [] = acc ∧ _ = d ∧ _ = c := by simpa using h
    rw [htail]
    exact ⟨p + 2, emptyLines_unknown hblank hg.2, fun _ => rfl⟩

/-- A literal block is read as its text, up to a line that starts no deeper than the collection around it. -/
theorem block_eq {p : Nat} (hne : cs ≠ []) (hb : ∀ x ∈ cs, isBreakChar x → x = '\n') (htab : cs.head? ≠ some '\t')
    (hm : margin ≤ p + 2) (hr : Starts rest) (hj : j ≤ p) (l col o : Nat) : ∃ l' o',
    block true (some p) ⟨'|' :: (Pen.literalHints cs ++ '\n' :: (blockText margin (p + 2) (textLines cs) ++
      (List.replicate j ' ' ++ rest))), l, col, o⟩ = some (.scalar .literal (.ofList cs), ⟨rest, l', j, o'⟩) := by
  obtain ⟨ch, hchomps, hhints⟩ := exists_sign hne hb
  have hlines : ∀ line ∈ textLines cs, ∀ x ∈ line, isBreakChar x = false := fun line hl x hx => by
    obtain ⟨hx, hfeed⟩ := mem_of_mem_textLines hl hx
    simpa using fun h => hfeed (hb x hx h)
  obtain ⟨more, hmore⟩ : ∃ more, blockText margin (p + 2) (textLines cs) ++ (List.replicate j ' ' ++ rest) = more :=
    ⟨_, rfl⟩
  have hlength : (textLines cs).length < more.length + 1 := by
    have := length_le_blockText margin (p + 2) (textLines cs)
    rw [← hmore, List.length_append]
    omega
  obtain ⟨j', o', hheader⟩ := blockHeader_eq (given cs) ch more l (col + 1) (o + 1)
  have hreads : ReadsOn margin (p + 2) j rest (textLines cs) := readsOn hm (by omega) hr (by omega) hlines
  obtain ⟨bs, d, c, s, l', o'', hempty, -, hblock, htext, hlast⟩ :=
    hreads (more.length + 1) 0 (l + 1) (o' + 1) [] [] [] false hlength
  obtain ⟨deepest, hfirst, hdeepest⟩ := emptyLines_given hne htab hlines hempty
  rw [hmore] at hfirst
  refine ⟨l', o'', ?_⟩
  rw [hmore, hhints]
  have hnext : (⟨'|' :: ((if given cs then ['2'] else []) ++ sign ch ++ '\n' :: more), l, col, o⟩ : Cursor).next =
      ⟨(if given cs then ['2'] else []) ++ sign ch ++ '\n' :: more, l, col + 1, o + 1⟩ := rfl
  have hend : lineEnd ⟨'\n' :: more, l, j', o'⟩ = some ⟨more, l + 1, 0, o' + 1⟩ := rfl
  have hgiven : (if (if given cs then 2 else 0) = 0 then 0 else p + if given cs then 2 else 0) =
      if given cs then p + 2 else 0 := by
    cases given cs <;> simp
  have hindent : (if (if given cs then p + 2 else 0) = 0 then max (max deepest (p + 1)) 1
      else if given cs then p + 2 else 0) = p + 2 := by
    cases hg : given cs with
    | true => simp
    | false => simp [hdeepest hg]
  have hchars : s.text ++ (if ch = .strip then [] else s.lastBreak) ++ (if ch = .keep then s.breaks else []) = cs :=
    hchomps.text_eq (by simpa using htext) (hlast fun he => absurd he (textLines_ne_nil hne))
  rw [block, hnext, hheader]
  simp only [Option.bind_eq_bind, Option.bind_some, hend, Option.getD_some, Option.map_some, hgiven, hfirst, hindent,
    hblock _ (Nat.lt_succ_self _), hchars, if_true]

end

end Lexeme

namespace TokenStream

variable {cs rest : List Char} {margin p j : Nat}

/-- A literal block at the start of a token. What follows it is where an entry can start. -/
theorem nextToken_literal (hne : cs ≠ []) (hb : ∀ x ∈ cs, isBreakChar x → x = '\n') (htab : cs.head? ≠ some '\t')
    (hm : margin ≤ p + 2) (hr : Starts rest) (hj : j ≤ p) (l col o : Nat) (ts : List Token) (is : List Nat) (b : Bool) :
    ∃ l' o', nextToken ⟨⟨'|' :: (Pen.literalHints cs ++ '\n' :: (blockText margin (p + 2) (textLines cs) ++
      (List.replicate j ' ' ++ rest))), l, col, o⟩, ts, p :: is, [none], b⟩ '|' =
        some (fresh ⟨rest, l', j, o'⟩ (.scalar .literal (.ofList cs) :: ts) (p :: is)) := by
  obtain ⟨l', o', hblock⟩ := Lexeme.block_eq hne hb htab hm hr hj l col o
  refine ⟨l', o', ?_⟩
  have hstep (more : List Char) : nextToken ⟨⟨'|' :: more, l, col, o⟩, ts, p :: is, [none], b⟩ '|' =
      TokenStream.block ⟨⟨'|' :: more, l, col, o⟩, ts, p :: is, [none], b⟩ true := by
    simp [nextToken, Cursor.atMarker, List.isPrefixOf, inFlow]
  rw [hstep]
  change (Lexeme.block true (some p) _).bind _ = _
  rw [hblock]
  rfl

end TokenStream

end OperatorScaffold.Yaml

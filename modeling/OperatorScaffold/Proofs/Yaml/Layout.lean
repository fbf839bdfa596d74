import OperatorScaffold.Proofs.Yaml.Ink
import OperatorScaffold.Proofs.Yaml.Literal
import OperatorScaffold.Proofs.Yaml.Quoted
import OperatorScaffold.Proofs.Yaml.Rendering
/-!
What a pen writes of a JSON value, as a text that is given by recursion on the value. Blanks put in front of its
lines are a margin of the text.
-/

namespace OperatorScaffold

namespace Yaml

open Cursor (isBreakChar)

/-- If the text is written line by line, its lines end with line feeds only. -/
def FeedsOnly (s : String) : Prop := chooseStyle false s = .literal → ∀ c ∈ s.toList, isBreakChar c → c = '\n'

instance : DecidablePred FeedsOnly := fun s =>
  letI : Decidable (∀ c ∈ s.toList, isBreakChar c → c = '\n') := List.decidableBAll _ _
  inferInstanceAs (Decidable (chooseStyle false s = .literal → ∀ c ∈ s.toList, isBreakChar c → c = '\n'))

end Yaml

namespace Json

/-- No text in the value has a line end that is kept line by line and is no line feed. -/
def Lined (v : Json) : Prop := ∀ s ∈ v.texts, Yaml.FeedsOnly s

instance : DecidablePred Lined := fun v => inferInstanceAs (Decidable (∀ s ∈ v.texts, Yaml.FeedsOnly s))

end Json

namespace Yaml

open Cursor (isBreakChar)

/-- A text whose own lines are at the column `i`. The breaks of a quoted one do not get the margin. -/
def scalarText (margin i : Nat) (simpleKey : Bool) (s : String) : List Char :=
  match chooseStyle simpleKey s with
  | .plain => s.toList
  | .single => quotedScalar true (i - margin) isBreakChar singleChar s.toList
  | .double => quotedScalar false (i - margin) (fun _ => false) Pen.doubleChar s.toList
  | .literal => literalText margin i s.toList

mutual

/-- A value behind the indicator of an entry at the column `i`; `inline` says that it starts in the same line. -/
def nodeText (margin i : Nat) (inline : Bool) : Json → List Char
  | .null => ' ' :: "null".toList
  | .bool b => ' ' :: (if b then "true" else "false").toList
  | .int n => ' ' :: (toString n).toList
  | .float x => ' ' :: (Decimal.Style.yaml.write x).toList
  | .str s => ' ' :: scalarText margin (i + 2) false s
  | .arr [] => [' ', '[', ']']
  | .obj [] => [' ', '\x7b', '\x7d']
  | .arr vs => if inline then itemsText margin (i + 2) [' '] vs else itemsText margin i (feed i) vs
  | .obj ms => membersText margin (i + 2) (if inline then [' '] else feed (i + 2)) ms

/-- The items of a list at the column `i`; `lead` is what the first one has in front. -/
def itemsText (margin i : Nat) (lead : List Char) : List Json → List Char
  | [] => []
  | v :: vs => lead ++ '-' :: nodeText margin i true v ++ itemsText margin i (feed i) vs

def membersText (margin i : Nat) (lead : List Char) : List (String × Json) → List Char
  | [] => []
  | (n, v) :: ms =>
    lead ++
      (if (Value.str n).isSimpleKey then scalarText margin (i + 2) true n ++ ':' :: nodeText margin i false v
      else '?' :: ' ' :: scalarText margin (i + 2) false n ++ (feed i ++ ':' :: nodeText margin i true v)) ++
    membersText margin i (feed i) ms

end

namespace Pen

variable {p : Pen} {t cs : List Char} {i : Nat} {inline : Bool}

theorem putAll_eq (p : Pen) (cs : List Char) :
    p.putAll cs = { p with written := cs.reverse ++ p.written, column := p.column + cs.length } := by
  induction cs generalizing p with
  | nil => rfl
  | cons c cs ih =>
    refine (ih (p.put c)).trans ?_
    simp [put, Nat.add_assoc, Nat.add_comm 1]

/-- The text ends with a value, or with the line end of a literal block. -/
def Ended (p : Pen) (t : List Char) : Prop :=
  p.written = t.reverse ∧ p.indenting = false ∨
    p.written = '\n' :: t.reverse ∧ p.column = 0 ∧ p.spaced ∧ p.indenting

/-- The pen is where an entry starts. -/
structure Opened (p : Pen) (i : Nat) (t : List Char) : Prop where
  written : p.written = t.reverse
  column : p.column = i
  spaced : p.spaced
  indenting : p.indenting

/-- The pen is behind an indicator, which is that of an entry at the column `i` if no more than such stand in the
line. -/
structure Behind (p : Pen) (inline : Bool) (i : Nat) (t : List Char) : Prop where
  written : p.written = t.reverse
  spaced : p.spaced = false
  indenting : p.indenting = inline
  column : inline → p.column = i + 1

theorem opened_start : (start.indentTo 0).Opened 0 [] := ⟨rfl, rfl, rfl, rfl⟩

theorem Ended.indentTo (h : p.Ended t) (i : Nat) : (p.indentTo i).Opened i (t ++ feed i) := by
  unfold Pen.indentTo
  obtain ⟨hw, hi⟩ | ⟨hw, hc, hs, hi⟩ := h
  · constructor <;> simp [hi, pad, putAll_eq, Pen.lineBreak, hw, feed]
  · constructor <;> simp [hi, hs, hc, pad, putAll_eq, hw, feed]

/-- A collection in the line of the entry that it is in. -/
theorem Behind.indentTo (h : p.Behind true i t) : (p.indentTo (i + 2)).Opened (i + 2) (t ++ [' ']) := by
  have hc := h.column rfl
  unfold Pen.indentTo
  have hstay : ¬((!p.indenting || decide (i + 2 < p.column) || decide (p.column = i + 2) && !p.spaced) = true) := by
    simp [h.indenting, hc]
  rw [if_neg hstay]
  constructor <;> simp [pad, putAll_eq, h.written, hc]

theorem Behind.ended (h : p.Behind false i t) (i : Nat) : (p.indentTo i).Opened i (t ++ feed i) :=
  Ended.indentTo (.inl ⟨h.written, h.indenting⟩) i

theorem Opened.behind (h : p.Opened i t) (c : Char) :
    (p.indicator [c] true false true).Behind true i (t ++ [c]) := by
  constructor <;> simp [indicator, h.spaced, h.indenting, putAll_eq, h.written, h.column]

theorem Behind.plain {s : String} (h : p.Behind inline i t) (hs : s ≠ "") :
    (p.plain s).Ended (t ++ ' ' :: s.toList) := by
  refine .inl ⟨?_, rfl⟩
  simp [Pen.plain, h.spaced, hs, putAll_eq, put, h.written]

theorem Behind.flow {c d : Char} (h : p.Behind inline i t) :
    ((p.indicator [c] true true false).indicator [d] false false false).Ended (t ++ [' ', c, d]) := by
  refine .inl ⟨?_, ?_⟩ <;> simp [indicator, h.spaced, putAll_eq, put, h.written]

/-- Behind a line break that is no line feed the pen goes to the column. -/
theorem indentTo_of_broken (hc : p.column = 0) (hi : p.indenting) (hpos : 0 < i) :
    p.indentTo i = { p with written := List.replicate i ' ' ++ p.written, column := i, spaced := true } := by
  have hstay : ¬((!p.indenting || decide (i < p.column) || decide (p.column = i) && !p.spaced) = true) := by
    simp [hi, hc, hpos.ne]
  unfold indentTo
  rw [if_neg hstay]
  simp [pad, putAll_eq, hc, hi]

theorem written_singleBody {broken : Bool} (hpos : 0 < i) (hb : broken → p.column = 0 ∧ p.indenting) :
    (singleBody i p broken cs).written = (quotedText i isBreakChar singleChar broken cs).reverse ++ p.written := by
  induction cs generalizing p broken with
  | nil =>
    cases broken with
    | false => rfl
    | true => simp [singleBody, quotedText, indentTo_of_broken (hb rfl).1 (hb rfl).2 hpos]
  | cons c cs ih =>
    rw [singleBody, quotedText]
    split
    next =>
      rw [ih fun _ => ⟨rfl, rfl⟩]
      simp [Pen.lineBreak]
    next =>
      refine (ih ?_).trans ?_
      · intro h
        cases h
      · cases broken with
        | false => by_cases hc : c = '\'' <;> simp [put, singleChar, hc]
        | true => by_cases hc : c = '\'' <;> simp [put, singleChar, indentTo_of_broken (hb rfl).1 (hb rfl).2 hpos, hc]

theorem literalBody_append {l : List Char} (hl : ∀ c ∈ l, isBreakChar c = false) (hi : p.indenting = false)
    (more : List Char) : literalBody i p false (l ++ more) = literalBody i (p.putAll l) false more := by
  induction l generalizing p with
  | nil => rfl
  | cons c l ih =>
    obtain ⟨hc, hl⟩ := List.forall_mem_cons.1 hl
    have hput : { p.put c with indenting := false } = p.put c := by
      rw [← hi]
      rfl
    rw [List.cons_append, literalBody, if_neg (by simp [hc]), if_neg (by simp)]
    dsimp only
    rw [hput]
    exact ih hl hi

/-- A line that is not empty is put at its column. -/
theorem literalBody_line {l : List Char} (hne : l ≠ []) (hl : ∀ c ∈ l, isBreakChar c = false) (hc : p.column = 0)
    (hi : p.indenting) (hpos : 0 < i) (more : List Char) :
    literalBody i p true (l ++ more) = literalBody i
      ⟨l.reverse ++ (List.replicate i ' ' ++ p.written), i + l.length, true, false⟩ false more := by
  obtain ⟨c, l, rfl⟩ := List.exists_cons_of_ne_nil hne
  obtain ⟨hbreak, hl⟩ := List.forall_mem_cons.1 hl
  rw [List.cons_append, literalBody, if_neg (by simp [hbreak])]
  simp only [if_true]
  rw [indentTo_of_broken hc hi hpos, literalBody_append hl rfl, putAll_eq]
  simp [put, Nat.add_assoc, Nat.add_comm 1]

/-- The lines of a literal block, from the start of the first one. -/
theorem ended_literalBody (hcs : ∀ c ∈ cs, isBreakChar c → c = '\n') (hpos : 0 < i) (hw : p.written = '\n' :: t.reverse)
    (hc : p.column = 0) (hs : p.spaced) (hi : p.indenting) :
    (literalBody i p true cs).Ended (t ++ (textLines cs).flatMap fun l => '\n' :: blockLine 0 i l) := by
  have hbreaks : ∀ l : List Char, (∀ c ∈ l, c ∈ cs) → '\n' ∉ l → ∀ c ∈ l, isBreakChar c = false := by
    intro l hl hfeed c hc
    rw [← Bool.not_eq_true]
    exact fun hb => hfeed (hcs c (hl c hc) hb ▸ hc)
  induction cs using Text.lines_induction generalizing p t with
  | last cs hfeed =>
    obtain rfl | hne := eq_or_ne cs []
    · exact .inr ⟨by simpa [textLines, literalBody] using hw, hc, hs, hi⟩
    · have hbody := literalBody_line hne (hbreaks cs (fun _ => id) hfeed) hc hi hpos []
      rw [List.append_nil] at hbody
      rw [hbody, textLines_of_no_feed hne hfeed]
      refine .inl ⟨?_, rfl⟩
      simp [literalBody, blockLine, hne, hw]
  | line l cs hfeed ih =>
    have hrest : ∀ c ∈ cs, isBreakChar c → c = '\n' := fun c hc => hcs c (by simp [hc])
    have hstep : literalBody i p true (l ++ '\n' :: cs) = literalBody i
        ⟨'\n' :: (t ++ '\n' :: blockLine 0 i l).reverse, 0, true, true⟩ true cs := by
      obtain ⟨w, c, s, d⟩ := p
      obtain rfl | hne := eq_or_ne l []
      · simp only at hw hs
        simp [literalBody, isBreakChar, Pen.lineBreak, blockLine, hw, hs]
      · rw [literalBody_line hne (hbreaks l (fun c hc => by simp [hc]) hfeed) hc hi hpos]
        simp only at hw
        simp [literalBody, isBreakChar, Pen.lineBreak, blockLine, hne, hw]
    rw [hstep, textLines_line hfeed, List.flatMap_cons, ← List.append_assoc]
    exact ih hrest rfl rfl rfl rfl fun l hl => hbreaks l fun c hc => by simp [hl c hc]

end Pen

section

variable {s : String} {simpleKey : Bool} {cs : List Char}

/-- The text can be written in the style. -/
def Demands.Allows (d : Demands) : WriteStyle → Prop
  | .plain => d.plain
  | .single => d.single
  | .literal => d.literal
  | .double => True

theorem allows_chooseStyle (simpleKey : Bool) (s : String) :
    (Demands.ofChars s.toList).Allows (chooseStyle simpleKey s) := by
  unfold chooseStyle
  dsimp only
  cases preferredStyle s <;> cases simpleKey <;> cases hp : (Demands.ofChars s.toList).plain <;>
    cases hs : (Demands.ofChars s.toList).single <;> cases hl : (Demands.ofChars s.toList).literal <;>
      cases (Demands.ofChars s.toList).broken <;> cases s.isEmpty <;> simp [Demands.Allows, hp, hs, hl]

/-- What the style of a text tells of it. -/
theorem of_plain (h : chooseStyle simpleKey s = .plain) : s ≠ "" ∧ (Demands.ofChars s.toList).plain := by
  have hallows := allows_chooseStyle simpleKey s
  rw [h] at hallows
  refine ⟨?_, hallows⟩
  rintro rfl
  revert h
  cases simpleKey <;> decide

theorem of_single (h : chooseStyle simpleKey s = .single) : (Demands.ofChars s.toList).single ∧ '\n' ∉ s.toList := by
  have hallows := allows_chooseStyle simpleKey s
  rw [h] at hallows
  refine ⟨hallows, fun hfeed => ?_⟩
  obtain hs | ⟨hs, -⟩ := chooseStyle_of_feed simpleKey hfeed <;> rw [hs] at h <;> cases h

theorem of_literal (h : chooseStyle simpleKey s = .literal) :
    simpleKey = false ∧ (Demands.ofChars s.toList).literal ∧ '\n' ∈ s.toList := by
  have hallows := allows_chooseStyle simpleKey s
  rw [h] at hallows
  have hfeed : '\n' ∈ s.toList := by
    by_contra hfeed
    exact chooseStyle_of_oneLine hfeed h
  obtain hs | ⟨-, hk⟩ := chooseStyle_of_feed simpleKey hfeed
  · rw [hs] at h
    cases h
  · exact ⟨hk, hallows, hfeed⟩

end

namespace Pen

variable {p : Pen} {t : List Char} {s : String} {i : Nat} {inline : Bool}

theorem written_single (hpos : 0 < i) : (p.single i s).written =
    (quotedScalar true i isBreakChar singleChar s.toList).reverse ++ (p.indicator [] true false false).written := by
  simp [single, indicator, putAll_eq, written_singleBody hpos, quotedScalar, Lexeme.quote]

theorem quotedText_of_unbroken {indent : Nat} {breaks : Char → Bool} {spell : Char → List Char} {cs : List Char}
    (h : ∀ c ∈ cs, breaks c = false) : quotedText indent breaks spell false cs = cs.flatMap spell := by
  induction cs with
  | nil => rfl
  | cons c cs ih =>
    obtain ⟨hc, hcs⟩ := List.forall_mem_cons.1 h
    simp [quotedText, hc, ih hcs]

theorem written_double (i : Nat) : (p.double s).written =
    (quotedScalar false i (fun _ => false) doubleChar s.toList).reverse ++
      (p.indicator [] true false false).written := by
  simp [double, indicator, putAll_eq, quotedText_of_unbroken, quotedScalar, Lexeme.quote]

theorem Behind.text (h : p.Behind inline i t) (hs : FeedsOnly s) :
    (p.text (i + 2) false s).Ended (t ++ ' ' :: scalarText 0 (i + 2) false s) := by
  have hspace : (p.indicator [] true false false).written = ' ' :: t.reverse := by
    simp [indicator, h.spaced, putAll_eq, put, h.written]
  unfold Pen.text scalarText
  cases hstyle : chooseStyle false s with
  | plain => exact h.plain (of_plain hstyle).1
  | single => exact .inl ⟨by simp [written_single, hspace], Bool.and_false _⟩
  | double => exact .inl ⟨by simp [written_double (i + 2), hspace], Bool.and_false _⟩
  | literal =>
    have hbody := ended_literalBody (i := i + 2) (t := t ++ ' ' :: '|' :: literalHints s.toList)
      (p := ⟨'\n' :: (t ++ ' ' :: '|' :: literalHints s.toList).reverse, 0, true, true⟩) (hs hstyle)
      (by simp) rfl rfl rfl rfl
    have hhead : { ((p.indicator ['|'] true false false).putAll (literalHints s.toList)).lineBreak '\n' with
        spaced := true, indenting := true } =
        (⟨'\n' :: (t ++ ' ' :: '|' :: literalHints s.toList).reverse, 0, true, true⟩ : Pen) := by
      simp [Pen.lineBreak, indicator, h.spaced, putAll_eq, put, h.written]
    unfold literal
    dsimp only
    rw [hhead]
    simpa [literalText] using hbody

theorem Opened.key (h : p.Opened i t) (n : String) : ((p.text (i + 2) true n).indicator [':'] false false false).Behind
    false i (t ++ scalarText 0 (i + 2) true n ++ [':']) := by
  have hspace : (p.indicator [] true false false).written = t.reverse := by
    simp [indicator, h.spaced, putAll_eq, h.written]
  have htext : (p.text (i + 2) true n).written = (t ++ scalarText 0 (i + 2) true n).reverse := by
    unfold Pen.text scalarText
    cases hstyle : chooseStyle true n with
    | plain => simp [Pen.plain, h.spaced, putAll_eq, h.written]
    | single => simp [written_single, hspace]
    | double => simp [written_double (i + 2), hspace]
    | literal => exact absurd (of_literal hstyle).1 (by simp)
  refine ⟨?_, rfl, Bool.and_false _, fun h => by cases h⟩
  simp [indicator, putAll_eq, htext]

end Pen

open Pen

mutual

theorem ended_write : ∀ {v : Json} {p : Pen} {i : Nat} {inline inRecord : Bool} {t : List Char}, v.Lined →
    p.Behind inline i t → (inline = false → inRecord) →
    (Value.write p (some i) ⟨inRecord, false⟩ (.ofJson v)).Ended (t ++ nodeText 0 i inline v)
  | .null, _, _, _, _, _, _, h, _ => h.plain (by decide)
  | .bool true, _, _, _, _, _, _, h, _ => h.plain (by decide)
  | .bool false, _, _, _, _, _, _, h, _ => h.plain (by decide)
  | .int n, _, _, _, _, _, _, h, _ => h.plain (String.toList_eq_nil_iff.not.1 (ink_toString n).ne_nil)
  | .float x, _, _, _, _, _, _, h, _ => h.plain (String.toList_eq_nil_iff.not.1 (ink_write .yaml x).ne_nil)
  | .str s, _, _, _, _, _, hv, h, _ => h.text (hv s (by simp [Json.texts]))
  | .arr [], _, _, _, _, _, _, h, _ => h.flow
  | .obj [], _, _, _, _, _, _, h, _ => h.flow
  | .arr (v :: vs), p, i, inline, inRecord, t, hv, h, hi => by
    have hv : ∀ s ∈ Json.textsOfItems (v :: vs), FeedsOnly s := hv
    cases inline with
    | true =>
      have hinner : (if inRecord && !p.indenting then i else i + 2) = i + 2 := by simp [h.indenting]
      change (Value.writeItems p (if inRecord && !p.indenting then i else i + 2) _).Ended _
      rw [hinner]
      exact ended_writeItems (List.cons_ne_nil v vs) hv h.indentTo
    | false =>
      have hinner : (if inRecord && !p.indenting then i else i + 2) = i := by simp [h.indenting, hi rfl]
      change (Value.writeItems p (if inRecord && !p.indenting then i else i + 2) _).Ended _
      rw [hinner]
      exact ended_writeItems (List.cons_ne_nil v vs) hv (h.ended i)
  | .obj (m :: ms), p, i, inline, inRecord, t, hv, h, hi => by
    have hv : ∀ s ∈ Json.textsOfMembers (m :: ms), FeedsOnly s := hv
    cases inline with
    | true => exact ended_writeEntries (List.cons_ne_nil m ms) hv h.indentTo
    | false => exact ended_writeEntries (List.cons_ne_nil m ms) hv (h.ended (i + 2))

theorem ended_writeItems : ∀ {vs : List Json} {p : Pen} {i : Nat} {t lead : List Char}, vs ≠ [] →
    (∀ s ∈ Json.textsOfItems vs, FeedsOnly s) → (p.indentTo i).Opened i (t ++ lead) →
    (Value.writeItems p i (Value.ofJsonItems vs)).Ended (t ++ itemsText 0 i lead vs)
  | [], _, _, _, _, hne, _, _ => absurd rfl hne
  | v :: vs, p, i, t, lead, _, hv, h => by
    obtain ⟨hv, hvs⟩ := List.forall_mem_append.1 hv
    have hnode : (Value.write ((p.indentTo i).indicator ['-'] true false true) (some i) ⟨false, false⟩
        (.ofJson v)).Ended (t ++ lead ++ ['-'] ++ nodeText 0 i true v) := ended_write hv (h.behind '-') nofun
    rw [Value.ofJsonItems, Value.writeItems]
    obtain rfl | hne := eq_or_ne vs []
    · simpa [itemsText, Value.ofJsonItems, Value.writeItems] using hnode
    · simpa [itemsText] using ended_writeItems hne hvs (hnode.indentTo i)

theorem ended_writeEntries : ∀ {ms : List (String × Json)} {p : Pen} {i : Nat} {t lead : List Char}, ms ≠ [] →
    (∀ s ∈ Json.textsOfMembers ms, FeedsOnly s) → (p.indentTo i).Opened i (t ++ lead) →
    (Value.writeEntries p i (Value.ofJsonMembers ms)).Ended (t ++ membersText 0 i lead ms)
  | [], _, _, _, _, hne, _, _ => absurd rfl hne
  | (n, v) :: ms, p, i, t, lead, _, hv, h => by
    obtain ⟨hn, hv⟩ := List.forall_mem_cons.1 hv
    obtain ⟨hv, hms⟩ := List.forall_mem_append.1 hv
    have hentry : (Value.write (if (Value.str n).isSimpleKey then
          (Value.write (p.indentTo i) (some i) ⟨true, true⟩ (.str n)).indicator [':'] false false false
        else ((Value.write ((p.indentTo i).indicator ['?'] true false true) (some i) ⟨true, false⟩
          (.str n)).indentTo i).indicator [':'] true false true) (some i) ⟨true, false⟩ (.ofJson v)).Ended
        (t ++ (lead ++ (if (Value.str n).isSimpleKey then scalarText 0 (i + 2) true n ++ ':' :: nodeText 0 i false v
          else '?' :: ' ' :: scalarText 0 (i + 2) false n ++ (feed i ++ ':' :: nodeText 0 i true v)))) := by
      split
      next =>
        have hnode : (Value.write _ (some i) ⟨true, false⟩ (.ofJson v)).Ended _ := ended_write hv (h.key n) fun _ => rfl
        simpa [Value.write] using hnode
      next =>
        have hkey := ((h.behind '?').text hn).indentTo i
        have hnode : (Value.write _ (some i) ⟨true, false⟩ (.ofJson v)).Ended _ :=
          ended_write hv (hkey.behind ':') fun _ => rfl
        simpa [Value.write] using hnode
    rw [Value.ofJsonMembers, Value.writeEntries]
    obtain rfl | hne := eq_or_ne ms []
    · simpa [membersText, Value.ofJsonMembers, Value.writeEntries] using hentry
    · simpa [membersText] using ended_writeEntries hne hms (hentry.indentTo i)

end

theorem toList_render {ms : List (String × Json)} (hne : ms ≠ []) (hv : (Json.obj ms).Lined) :
    (Value.ofJson (.obj ms)).render.toList = membersText 0 0 [] ms ++ ['\n'] := by
  have hwrite : (Value.writeEntries start 0 (Value.ofJsonMembers ms)).Ended ([] ++ membersText 0 0 [] ms) :=
    ended_writeEntries hne hv opened_start
  have hend := (hwrite.indentTo 0).written
  obtain ⟨m, ms, rfl⟩ := List.exists_cons_of_ne_nil hne
  have hrender : (Value.ofJson (.obj (m :: ms))).render =
      .ofList ((Value.writeEntries start 0 (Value.ofJsonMembers (m :: ms))).indentTo 0).written.reverse := rfl
  rw [hrender, String.toList_ofList, hend, List.reverse_reverse]
  rfl

end Yaml

end OperatorScaffold

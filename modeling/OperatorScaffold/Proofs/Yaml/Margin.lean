import OperatorScaffold.Proofs.Yaml.Layout
import OperatorScaffold.Schema
/-!
A text that is moved to the right as a whole. What is written of a value is moved by its margin, and so the schema
and the sample are found in the files that they are put in.
-/

namespace OperatorScaffold

namespace Yaml

open Cursor (isBreakChar)
open Pen

section

variable {cs : List Char} {k i margin indent : Nat} {s : String} {simpleKey : Bool}

/-- Blanks behind each line feed. -/
def shift (k : Nat) (cs : List Char) : List Char := cs.flatMap fun c => if c = '\n' then feed k else [c]

theorem shift_append (k : Nat) (cs ds : List Char) : shift k (cs ++ ds) = shift k cs ++ shift k ds :=
  List.flatMap_append

theorem shift_of_no_feed (h : '\n' ∉ cs) : shift k cs = cs := by
  induction cs with
  | nil => rfl
  | cons c cs ih =>
    rw [List.mem_cons, not_or] at h
    rw [shift, List.flatMap_cons, if_neg (Ne.symm h.1)]
    exact congrArg (c :: ·) (ih h.2)

theorem shift_cons {c : Char} (hc : c ≠ '\n') (cs : List Char) : shift k (c :: cs) = c :: shift k cs := by
  rw [shift, List.flatMap_cons, if_neg hc]
  rfl

theorem shift_feed_cons (cs : List Char) : shift k ('\n' :: cs) = feed k ++ shift k cs := by
  rw [shift, List.flatMap_cons, if_pos rfl]
  rfl

theorem shift_feed (i : Nat) : shift k (feed i) = feed (i + k) := by
  rw [feed, shift_feed_cons, shift_of_no_feed (by simp), feed, feed, List.cons_append, List.replicate_append_replicate,
    Nat.add_comm]

theorem shift_blockLine {l : List Char} (h : '\n' ∉ l) :
    shift k ('\n' :: blockLine margin i l) = '\n' :: blockLine (margin + k) (i + k) l := by
  have hline : '\n' ∉ blockLine margin i l := by
    unfold blockLine
    split <;> simp [h]
  rw [shift_feed_cons, shift_of_no_feed hline, feed, List.cons_append]
  unfold blockLine
  split
  · rw [List.replicate_append_replicate, Nat.add_comm]
  · rw [← List.append_assoc, List.replicate_append_replicate, Nat.add_comm]

theorem forall_mem_quotedText {P : Char → Prop} {breaks : Char → Bool} {spell : Char → List Char} {broken : Bool}
    (hblank : P ' ') (hbreaks : ∀ c ∈ cs, breaks c → P c) (hspell : ∀ c ∈ cs, ∀ x ∈ spell c, P x) :
    ∀ x ∈ quotedText indent breaks spell broken cs, P x := by
  have hblanks : ∀ x ∈ (if broken then List.replicate indent ' ' else []), P x := by
    intro x hx
    split at hx
    · exact List.eq_of_mem_replicate hx ▸ hblank
    · cases hx
  induction cs generalizing broken with
  | nil => exact hblanks
  | cons c cs ih =>
    obtain ⟨hb, hbs⟩ := List.forall_mem_cons.1 hbreaks
    obtain ⟨hs, hss⟩ := List.forall_mem_cons.1 hspell
    rw [quotedText]
    split
    next hc =>
      refine List.forall_mem_cons.2 ⟨hb hc, ih hbs hss ?_⟩
      simp [hblank]
    next =>
      refine List.forall_mem_append.2 ⟨List.forall_mem_append.2 ⟨hblanks, hs⟩, ih hbs hss ?_⟩
      intro _ h
      cases h

theorem forall_mem_quotedScalar {P : Char → Prop} {single : Bool} {breaks : Char → Bool} {spell : Char → List Char}
    (hquote : P (Lexeme.quote single)) (hblank : P ' ') (hbreaks : ∀ c ∈ cs, breaks c → P c)
    (hspell : ∀ c ∈ cs, ∀ x ∈ spell c, P x) : ∀ x ∈ quotedScalar single indent breaks spell cs, P x :=
  List.forall_mem_cons.2 ⟨hquote, List.forall_mem_append.2
    ⟨forall_mem_quotedText hblank hbreaks hspell, List.forall_mem_singleton.2 hquote⟩⟩

theorem mem_singleChar {c x : Char} (hx : x ∈ singleChar c) : x = c := by
  unfold singleChar at hx
  split at hx <;> simp_all

/-- A text that is quoted or plain has no lines of its own. -/
theorem feed_not_mem_scalarText (h : chooseStyle simpleKey s ≠ .literal) : '\n' ∉ scalarText margin i simpleKey s := by
  have hsingle : Lexeme.quote true ≠ '\n' := by decide
  have hdouble : Lexeme.quote false ≠ '\n' := by decide
  unfold scalarText
  cases hstyle : chooseStyle simpleKey s with
  | plain =>
    have hplain := (of_plain hstyle).2
    simp only [Demands.plain, Bool.not_eq_true', Bool.or_eq_false_iff] at hplain
    exact fun hfeed => List.any_eq_false.1 hplain.1.1.1.1.2 _ hfeed rfl
  | single =>
    have hfeed := (of_single hstyle).2
    have hne : ∀ c ∈ s.toList, c ≠ '\n' := fun c hc he => hfeed (he ▸ hc)
    exact fun hmem => forall_mem_quotedScalar (P := (· ≠ '\n')) hsingle (by decide) (fun c hc _ => hne c hc)
      (fun c hc x hx => mem_singleChar hx ▸ hne c hc) _ hmem rfl
  | double =>
    exact fun hmem => forall_mem_quotedScalar (P := (· ≠ '\n')) hdouble (by decide) (by simp)
      (fun c _ x hx he => feed_not_mem_doubleChar c (he ▸ hx)) _ hmem rfl
  | literal => exact absurd hstyle h

theorem shift_scalarText (k : Nat) :
    shift k (scalarText margin i simpleKey s) = scalarText (margin + k) (i + k) simpleKey s := by
  by_cases h : chooseStyle simpleKey s = .literal
  · unfold scalarText
    rw [h]
    dsimp only
    have hhints : '\n' ∉ '|' :: literalHints s.toList := by simp [feed_not_mem_literalHints]
    rw [literalText, literalText, shift_append, shift_of_no_feed hhints]
    congr 1
    rw [shift, List.flatMap_assoc]
    refine List.flatMap_congr fun l hl => ?_
    exact shift_blockLine fun hfeed => (mem_of_mem_textLines hl hfeed).2 rfl
  · rw [shift_of_no_feed (feed_not_mem_scalarText h)]
    unfold scalarText
    cases hstyle : chooseStyle simpleKey s with
    | literal => exact absurd hstyle h
    | _ => simp [Nat.add_sub_add_right]

mutual

theorem shift_nodeText (k : Nat) : ∀ (v : Json) (margin i : Nat) (inline : Bool),
    shift k (nodeText margin i inline v) = nodeText (margin + k) (i + k) inline v
  | .null, _, _, _ => rfl
  | .bool true, _, _, _ => rfl
  | .bool false, _, _, _ => rfl
  | .int n, _, _, _ => by
    have hfeed := List.not_mem_cons_of_ne_of_not_mem (a := '\n') (y := ' ') (by decide) (ink_toString n).feed_not_mem
    rw [nodeText, nodeText, shift_of_no_feed hfeed]
  | .float x, _, _, _ => by
    have hfeed :=
      List.not_mem_cons_of_ne_of_not_mem (a := '\n') (y := ' ') (by decide) (ink_write .yaml x).feed_not_mem
    rw [nodeText, nodeText, shift_of_no_feed hfeed]
  | .str s, margin, i, _ => by
    rw [nodeText, nodeText, shift_cons (by decide), shift_scalarText, Nat.add_right_comm]
  | .arr [], _, _, _ => rfl
  | .obj [], _, _, _ => rfl
  | .arr (v :: vs), margin, i, true => by
    have hlead : shift k [' '] = [' '] := rfl
    simp only [nodeText, if_true, shift_itemsText k (v :: vs), hlead, Nat.add_right_comm]
  | .arr (v :: vs), margin, i, false => by
    simp only [nodeText, Bool.false_eq_true, if_false, shift_itemsText k (v :: vs), shift_feed]
  | .obj (m :: ms), margin, i, true => by
    have hlead : shift k [' '] = [' '] := rfl
    simp only [nodeText, if_true, shift_membersText k (m :: ms), hlead, Nat.add_right_comm]
  | .obj (m :: ms), margin, i, false => by
    simp only [nodeText, Bool.false_eq_true, if_false, shift_membersText k (m :: ms), shift_feed, Nat.add_right_comm]

theorem shift_itemsText (k : Nat) : ∀ (vs : List Json) (margin i : Nat) (lead : List Char),
    shift k (itemsText margin i lead vs) = itemsText (margin + k) (i + k) (shift k lead) vs
  | [], _, _, _ => rfl
  | v :: vs, margin, i, lead => by
    rw [itemsText, itemsText, shift_append, shift_append, shift_cons (by decide), shift_nodeText k v,
      shift_itemsText k vs, shift_feed]

theorem shift_membersText (k : Nat) : ∀ (ms : List (String × Json)) (margin i : Nat) (lead : List Char),
    shift k (membersText margin i lead ms) = membersText (margin + k) (i + k) (shift k lead) ms
  | [], _, _, _ => rfl
  | (n, v) :: ms, margin, i, lead => by
    rw [membersText, membersText, shift_append, shift_append, shift_membersText k ms, shift_feed]
    congr 2
    split
    · rw [shift_append, shift_cons (by decide), shift_scalarText, shift_nodeText k v, Nat.add_right_comm]
    · rw [List.cons_append, List.cons_append, shift_cons (by decide), shift_cons (by decide), shift_append,
        shift_append, shift_cons (by decide), shift_feed, shift_scalarText, shift_nodeText k v, Nat.add_right_comm]
      rfl

end

theorem shown_blanks (n : Nat) : ∀ x ∈ List.replicate n ' ', isShown x := fun _ hx => List.eq_of_mem_replicate hx ▸ rfl

theorem shown_hexDigits (n w : Nat) : ∀ x ∈ hexDigits n w, isShown x := by
  have h : ∀ d < 16, isShown (upperHexDigit d) := by decide
  induction w generalizing n with
  | zero => nofun
  | succ w ih =>
    exact List.forall_mem_append.2 ⟨ih (n / 16), List.forall_mem_singleton.2 (h _ (Nat.mod_lt n (by decide)))⟩

theorem shown_doubleChar (c : Char) : ∀ x ∈ doubleChar c, isShown x := by
  unfold doubleChar
  split
  iterate 14 exact List.all_eq_true.1 (by decide)
  split_ifs with hc
  · exact List.forall_mem_singleton.2 hc
  all_goals
    exact List.forall_mem_cons.2 ⟨by decide, List.forall_mem_cons.2 ⟨by decide, shown_hexDigits _ _⟩⟩

theorem shown_literalHints (cs : List Char) : ∀ x ∈ literalHints cs, isShown x := by
  rw [← List.all_eq_true]
  unfold literalHints
  dsimp only
  rw [List.all_append, Bool.and_eq_true]
  constructor
  · split <;> rfl
  · split
    · rfl
    · split <;> rfl
    · split_ifs <;> rfl

theorem shown_scalarText : ∀ x ∈ scalarText margin i simpleKey s, isShown x := by
  unfold scalarText
  cases hstyle : chooseStyle simpleKey s with
  | plain =>
    have hplain := (of_plain hstyle).2
    simp only [Demands.plain, Bool.not_eq_true', Bool.or_eq_false_iff] at hplain
    exact isShown_of_ordinary hplain.1.1.1.2
  | single =>
    have hsingle := (of_single hstyle).1
    simp only [Demands.single, Bool.not_eq_true', Bool.or_eq_false_iff] at hsingle
    have hshown := isShown_of_ordinary hsingle.1.1
    exact forall_mem_quotedScalar (by decide) (by decide) (fun c hc _ => hshown c hc)
      fun c hc x hx => mem_singleChar hx ▸ hshown c hc
  | double => exact forall_mem_quotedScalar (by decide) (by decide) (by simp) fun c _ => shown_doubleChar c
  | literal =>
    have hliteral := (of_literal hstyle).2.1
    simp only [Demands.literal, Bool.not_eq_true', Bool.or_eq_false_iff] at hliteral
    have hshown := isShown_of_ordinary hliteral.1.1
    refine List.forall_mem_append.2 ⟨List.forall_mem_cons.2 ⟨by decide, shown_literalHints _⟩, fun x hx => ?_⟩
    obtain ⟨l, hl, hx⟩ := List.mem_flatMap.1 hx
    obtain rfl | hx := List.mem_cons.1 hx
    · decide
    · unfold blockLine at hx
      split at hx
      · exact shown_blanks _ x hx
      · obtain hx | hx := List.mem_append.1 hx
        · exact shown_blanks _ x hx
        · exact hshown x (mem_of_mem_textLines hl hx).1

theorem shown_feed (i : Nat) : ∀ x ∈ feed i, isShown x :=
  List.forall_mem_cons.2 ⟨by decide, shown_blanks i⟩

mutual

theorem shown_nodeText : ∀ (v : Json) (margin i : Nat) (inline : Bool), ∀ x ∈ nodeText margin i inline v, isShown x
  | .null, _, _, _ => by simp only [nodeText]; exact List.all_eq_true.1 (by decide)
  | .bool true, _, _, _ => by simp only [nodeText]; exact List.all_eq_true.1 (by decide)
  | .bool false, _, _, _ => by simp only [nodeText]; exact List.all_eq_true.1 (by decide)
  | .int n, _, _, _ => List.forall_mem_cons.2 ⟨by decide, (ink_toString n).shown⟩
  | .float x, _, _, _ => List.forall_mem_cons.2 ⟨by decide, (ink_write .yaml x).shown⟩
  | .str s, margin, i, _ => List.forall_mem_cons.2 ⟨by decide, shown_scalarText⟩
  | .arr [], _, _, _ => by simp only [nodeText]; exact List.all_eq_true.1 (by decide)
  | .obj [], _, _, _ => by simp only [nodeText]; exact List.all_eq_true.1 (by decide)
  | .arr (v :: vs), margin, i, true => shown_itemsText (v :: vs) margin (i + 2) [' '] (List.all_eq_true.1 (by decide))
  | .arr (v :: vs), margin, i, false => shown_itemsText (v :: vs) margin i (feed i) (shown_feed i)
  | .obj (m :: ms), margin, i, true => shown_membersText (m :: ms) margin (i + 2) [' '] (List.all_eq_true.1 (by decide))
  | .obj (m :: ms), margin, i, false => shown_membersText (m :: ms) margin (i + 2) (feed (i + 2)) (shown_feed (i + 2))

theorem shown_itemsText : ∀ (vs : List Json) (margin i : Nat) (lead : List Char), (∀ x ∈ lead, isShown x) →
    ∀ x ∈ itemsText margin i lead vs, isShown x
  | [], _, _, _, _ => nofun
  | v :: vs, margin, i, lead, hlead => by
    refine List.forall_mem_append.2
      ⟨List.forall_mem_append.2 ⟨hlead, ?_⟩, shown_itemsText vs margin i (feed i) (shown_feed i)⟩
    exact List.forall_mem_cons.2 ⟨by decide, shown_nodeText v margin i true⟩

theorem shown_membersText : ∀ (ms : List (String × Json)) (margin i : Nat) (lead : List Char), (∀ x ∈ lead, isShown x) →
    ∀ x ∈ membersText margin i lead ms, isShown x
  | [], _, _, _, _ => nofun
  | (n, v) :: ms, margin, i, lead, hlead => by
    refine List.forall_mem_append.2
      ⟨List.forall_mem_append.2 ⟨hlead, ?_⟩, shown_membersText ms margin i (feed i) (shown_feed i)⟩
    have hcolon (inline : Bool) : ∀ x ∈ ':' :: nodeText margin i inline v, isShown x :=
      List.forall_mem_cons.2 ⟨by decide, shown_nodeText v margin i inline⟩
    split
    · exact List.forall_mem_append.2 ⟨shown_scalarText, hcolon false⟩
    · refine List.forall_mem_append.2 ⟨?_, List.forall_mem_append.2 ⟨shown_feed i, hcolon true⟩⟩
      exact List.forall_mem_cons.2 ⟨by decide, List.forall_mem_cons.2 ⟨by decide, shown_scalarText⟩⟩

end

end

end Yaml

namespace Schema

open Yaml

/-- The lines of a text with blanks in front. -/
theorem toList_indented {cs : List Char} (pad : Nat) (h : '\r' ∉ cs) : ∀ s : String, s.toList = cs ++ ['\n'] →
    (joinLines ((Text.lines s).map (.ofList (List.replicate pad ' ') ++ ·))).toList =
      List.replicate pad ' ' ++ shift pad cs := by
  have hchomp : ∀ l : List Char, '\r' ∉ l → Text.chomp (l ++ ['\n']) = l := by
    intro l hl
    obtain he | he := Text.chomp_concat_feed l
    · exact he
    · exact absurd (he ▸ List.mem_append_right _ List.mem_cons_self) hl
  induction cs using Text.lines_induction with
  | last cs hfeed =>
    intro s hs
    have hlines : Text.lines s = [.ofList cs] := by
      rw [Text.lines, hs, Text.chunks_line_append hfeed, Text.chunks, List.map_cons, hchomp cs h, List.map_nil]
    rw [hlines, shift_of_no_feed hfeed]
    simp [joinLines]
  | line l cs hfeed ih =>
    intro s hs
    have hl : '\r' ∉ l := fun hm => h (List.mem_append_left _ hm)
    have hcs : '\r' ∉ cs := fun hm => h (List.mem_append_right _ (List.mem_cons_of_mem _ hm))
    have hlines : Text.lines s = .ofList l :: Text.lines (.ofList (cs ++ ['\n'])) := by
      rw [Text.lines, hs, List.append_assoc, List.cons_append, Text.chunks_line_append hfeed, List.map_cons,
        hchomp l hl, Text.lines, String.toList_ofList]
    obtain ⟨x, xs, hx⟩ : ∃ x xs, Text.lines (.ofList (cs ++ ['\n'])) = x :: xs := by
      have hne : Text.chunks (cs ++ ['\n']) ≠ [] := fun he => by
        have hflat := Text.flatten_chunks (cs ++ ['\n'])
        simp [he] at hflat
      obtain ⟨c, cs', hc⟩ := List.exists_cons_of_ne_nil hne
      exact ⟨_, _, by rw [Text.lines, String.toList_ofList, hc, List.map_cons]⟩
    have ih := ih hcs (.ofList (cs ++ ['\n'])) String.toList_ofList
    rw [hx, List.map_cons] at ih
    rw [hlines, hx, List.map_cons, List.map_cons, joinLines, String.toList_append, ih, shift_append,
      shift_of_no_feed hfeed, shift_feed_cons]
    · simp [feed]
    · intro h
      cases h

theorem toList_yamlBlock {ms : List (String × Json)} (hne : ms ≠ []) (hv : (Json.obj ms).Lined) (pad : Nat) :
    (yamlBlock (.obj ms) pad).toList = List.replicate pad ' ' ++ membersText pad pad [] ms := by
  have hreturn : '\r' ∉ membersText 0 0 [] ms := fun hr => absurd (shown_membersText ms 0 0 [] nofun _ hr) (by decide)
  refine (toList_indented pad hreturn _ (toList_render hne hv)).trans ?_
  rw [shift_membersText, Nat.zero_add]
  rfl

end Schema

end OperatorScaffold

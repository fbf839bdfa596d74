import OperatorScaffold.Proofs.Yaml.Block
import OperatorScaffold.Proofs.Yaml.Margin
/-!
A JSON value is read from what is written of it as a tree that follows the value, at whatever column and margin it
stands.
-/

namespace OperatorScaffold

namespace Yaml

open Cursor (isBreakChar isBlankChar width)
open Pen

/-- What a reader knows of the style that a text was written in. -/
def WriteStyle.seen : WriteStyle → ScalarStyle
  | .plain => .plain
  | .literal => .literal
  | .single => .other
  | .double => .other

/-- A text as the tree of a scalar, as a key in front of its colon or as a value. -/
def textTree (simpleKey : Bool) (s : String) : Tree := .scalar none (chooseStyle simpleKey s).seen s

end Yaml

namespace Json

open Yaml (Tree textTree)

mutual

/-- The tree that the value is written as. -/
def tree : Json → Tree
  | .null => .scalar none .plain "null"
  | .bool b => .scalar none .plain (if b then "true" else "false")
  | .int n => .scalar none .plain (toString n)
  | .float x => .scalar none .plain (Decimal.Style.yaml.write x)
  | .str s => textTree false s
  | .arr items => .list none (treesOfItems items)
  | .obj members => .record none (treesOfMembers members)

def treesOfItems : List Json → List Tree
  | [] => []
  | v :: vs => v.tree :: treesOfItems vs

def treesOfMembers : List (String × Json) → List (Tree × Tree)
  | [] => []
  | (n, v) :: ms => (textTree (Yaml.Value.str n).isSimpleKey n, v.tree) :: treesOfMembers ms

end

end Json

namespace Yaml

open Cursor (isBreakChar isBlankChar width)
open Pen

section

variable {cs : List Char} {s : String} {i margin : Nat} {inline : Bool}

theorem width_append (cs ds : List Char) : width (cs ++ ds) = width cs + width ds := by simp [width]

theorem width_eq_utf8ByteSize (cs : List Char) : width cs = (String.ofList cs).utf8ByteSize := by
  induction cs with
  | nil => rfl
  | cons c cs ih =>
    rw [String.ofList_cons, String.utf8ByteSize_append, String.utf8ByteSize_singleton, ← ih]
    rfl

theorem width_hexDigits (n w : Nat) : width (hexDigits n w) = w := by
  have h : ∀ d < 16, (upperHexDigit d).utf8Size = 1 := by decide
  induction w generalizing n with
  | zero => rfl
  | succ w ih =>
    rw [hexDigits, width_append, ih]
    simp [width, h _ (Nat.mod_lt n (by decide : 16 > 0))]

theorem not_le_of_toNat_lt {c : Char} {m : UInt32} (h : m.toNat < c.toNat) : ¬c.val ≤ m := fun hc =>
  Nat.not_le.2 h (UInt32.le_iff_toNat_le.1 hc)

theorem two_le_utf8Size {c : Char} (h : 0xFF < c.toNat) : 2 ≤ c.utf8Size := by
  unfold Char.utf8Size
  dsimp only
  rw [if_neg (not_le_of_toNat_lt (Nat.lt_trans (by decide) h))]
  split
  · exact Nat.le_refl 2
  · split <;> omega

theorem utf8Size_of_large {c : Char} (h : 0xFFFF < c.toNat) : c.utf8Size = 4 := by
  unfold Char.utf8Size
  dsimp only
  rw [if_neg (not_le_of_toNat_lt (Nat.lt_trans (by decide) h)),
    if_neg (not_le_of_toNat_lt (Nat.lt_trans (by decide) h)),
    if_neg (not_le_of_toNat_lt (Nat.lt_of_le_of_lt (by decide) h))]

theorem width_doubleChar (c : Char) : width (doubleChar c) ≤ 4 * c.utf8Size := by
  unfold doubleChar
  split
  iterate 14 decide
  have hescape (x : Char) (hx : x.utf8Size = 1) (w : Nat) : width ('\\' :: x :: hexDigits c.toNat w) = w + 2 := by
    have hw := width_hexDigits c.toNat w
    simp only [width, List.map_cons, List.sum_cons] at hw ⊢
    rw [hw, hx, show '\\'.utf8Size = 1 from rfl]
    omega
  have hpos := c.utf8Size_pos
  split_ifs with hshown hbyte hword
  · simp [width]
    omega
  · rw [hescape 'x' rfl]
    omega
  · have := two_le_utf8Size (by omega : 0xFF < c.toNat)
    rw [hescape 'u' rfl]
    omega
  · have := utf8Size_of_large (by omega : 0xFFFF < c.toNat)
    rw [hescape 'U' rfl]
    omega

theorem width_singleChar (c : Char) : width (singleChar c) ≤ 4 * c.utf8Size := by
  unfold singleChar
  split
  next hc => subst hc; decide
  next => simp [width]; omega

theorem width_flatMap {spell : Char → List Char} (h : ∀ c, width (spell c) ≤ 4 * c.utf8Size) (cs : List Char) :
    width (cs.flatMap spell) ≤ 4 * width cs := by
  induction cs with
  | nil => exact Nat.zero_le _
  | cons c cs ih =>
    have hc := h c
    rw [List.flatMap_cons, width_append]
    simp only [width, List.map_cons, List.sum_cons] at hc ih ⊢
    omega

theorem quotable_of_single {simpleKey : Bool} (h : chooseStyle simpleKey s = .single) :
    Lexeme.Quotable true isBreakChar singleChar s.toList :=
  quotable_single (of_single h).1 (of_single h).2

/-- A text behind an indicator is read whole. -/
theorem readsNode_text (hs : FeedsOnly s) (hm : margin ≤ i) :
    ReadsNode i inline (' ' :: scalarText margin (i + 2) false s) (textTree false s) := by
  have hindent : 0 < i + 2 - margin := by omega
  unfold textTree scalarText
  cases hstyle : chooseStyle false s with
  | plain =>
    obtain ⟨hne, hplain⟩ := of_plain hstyle
    have hp := (plainText_of_demands hplain (String.toList_eq_nil_iff.not.2 hne)).1
    simp only [Demands.plain, Bool.not_eq_true', Bool.or_eq_false_iff] at hplain
    have hmark : '\ufeff' ∉ s.toList := fun hc => absurd (isShown_of_ordinary hplain.1.1.1.2 _ hc) (by decide)
    simpa [WriteStyle.seen] using (ReadsNode.plain hp hmark : ReadsNode i inline _ _)
  | single =>
    simpa [WriteStyle.seen] using (ReadsNode.quoted (quotable_of_single hstyle) rfl hindent : ReadsNode i inline _ _)
  | double =>
    simpa [WriteStyle.seen] using (ReadsNode.quoted (quotable_double s.toList) rfl hindent : ReadsNode i inline _ _)
  | literal =>
    obtain ⟨-, hliteral, hfeed⟩ := of_literal hstyle
    have htab : s.toList.head? ≠ some '\t' := fun hc => by
      simp only [Demands.literal, Bool.not_eq_true', Bool.or_eq_false_iff] at hliteral
      exact absurd (isShown_of_ordinary hliteral.1.1 _ (List.mem_of_head? hc)) (by decide)
    have hread : ReadsNode i inline _ _ :=
      .literal (List.ne_nil_of_mem hfeed) (hs hstyle) htab (by omega : margin ≤ i + 2)
    simpa [WriteStyle.seen] using hread

/-- A text that is short and in one line can be read as a key. -/
theorem readsKey_text (hs : (Value.str s).isSimpleKey) (hm : margin ≤ i) :
    ReadsKey i (scalarText margin (i + 2) true s) (chooseStyle true s).seen s := by
  simp only [Value.isSimpleKey, Bool.and_eq_true, Bool.not_eq_true', decide_eq_true_eq] at hs
  obtain ⟨hline, hbytes⟩ := hs
  have hwidth : width s.toList ≤ 128 := by
    rw [width_eq_utf8ByteSize, String.ofList_toList]
    exact hbytes
  have hindent : 0 < i + 2 - margin := by omega
  have hunbroken : ∀ c ∈ s.toList, isBreakChar c = false := fun c hc => by simpa using List.any_eq_false.1 hline c hc
  unfold scalarText
  cases hstyle : chooseStyle true s with
  | plain =>
    obtain ⟨hne, hplain⟩ := of_plain hstyle
    obtain ⟨hp, hmarker⟩ := plainText_of_demands hplain (String.toList_eq_nil_iff.not.2 hne)
    simp only [Demands.plain, Bool.not_eq_true', Bool.or_eq_false_iff] at hplain
    have hmark : '\ufeff' ∉ s.toList := fun hc => absurd (isShown_of_ordinary hplain.1.1.1.2 _ hc) (by decide)
    simpa [WriteStyle.seen] using ReadsKey.plain (i := i) hp hmarker hmark (by omega)
  | single =>
    have hbody := width_flatMap width_singleChar s.toList
    simpa [WriteStyle.seen] using ReadsKey.quoted (i := i) (quotable_of_single hstyle) rfl hindent hunbroken
      (by rw [quotedText_of_unbroken hunbroken]; omega)
  | double =>
    have hbody := width_flatMap width_doubleChar s.toList
    simpa [WriteStyle.seen] using ReadsKey.quoted (i := i) (quotable_double s.toList) rfl hindent (fun _ _ => rfl)
      (by rw [quotedText_of_unbroken fun _ _ => rfl]; omega)
  | literal => exact absurd (of_literal hstyle).1 (by simp)

theorem readsNode_word (hs : Ink s.toList) : ReadsNode i inline (' ' :: s.toList) (.scalar none .plain s) := by
  have hmark : '\ufeff' ∉ s.toList := fun hc => absurd (hs.chars _ hc) (by decide)
  simpa using (ReadsNode.plain hs.plainText hmark : ReadsNode i inline _ _)

theorem readsKey_word (hs : Ink s.toList) (hmarker : looksLikeMarker s.toList = false)
    (hbytes : s.utf8ByteSize ≤ 1024) : ReadsKey i s.toList .plain s := by
  have hmark : '\ufeff' ∉ s.toList := fun hc => absurd (hs.chars _ hc) (by decide)
  have hwidth : width s.toList ≤ 1024 := by rwa [width_eq_utf8ByteSize, String.ofList_toList]
  simpa using ReadsKey.plain (i := i) hs.plainText hmarker hmark hwidth

theorem itemsText_lead {vs : List Json} (hne : vs ≠ []) (lead : List Char) :
    itemsText margin i lead vs = lead ++ itemsText margin i [] vs := by
  obtain ⟨v, vs, rfl⟩ := List.exists_cons_of_ne_nil hne
  simp [itemsText]

theorem membersText_lead {ms : List (String × Json)} (hne : ms ≠ []) (lead : List Char) :
    membersText margin i lead ms = lead ++ membersText margin i [] ms := by
  obtain ⟨⟨n, v⟩, ms, rfl⟩ := List.exists_cons_of_ne_nil hne
  simp [membersText]

end

mutual

theorem readsNode_nodeText : ∀ {v : Json} {margin i : Nat} {inline : Bool}, v.Lined → margin ≤ i →
    ReadsNode i inline (nodeText margin i inline v) v.tree
  | .null, _, _, _, _, _ => readsNode_word (s := "null") ⟨by decide, by decide, List.all_eq_true.1 (by decide)⟩
  | .bool true, _, _, _, _, _ => readsNode_word (s := "true") ⟨by decide, by decide, List.all_eq_true.1 (by decide)⟩
  | .bool false, _, _, _, _, _ => readsNode_word (s := "false") ⟨by decide, by decide, List.all_eq_true.1 (by decide)⟩
  | .int n, _, _, _, _, _ => readsNode_word (ink_toString n)
  | .float x, _, _, _, _, _ => readsNode_word (ink_write .yaml x)
  | .str s, _, _, _, hv, hm => readsNode_text (hv s (by simp [Json.texts])) hm
  | .arr [], _, _, _, _, _ => .brackets
  | .obj [], _, _, _, _, _ => .braces
  | .arr (v :: vs), margin, i, inline, hv, hm => by
    have hne := List.cons_ne_nil v vs
    have hv : ∀ s ∈ Json.textsOfItems (v :: vs), FeedsOnly s := hv
    cases inline with
    | true =>
      change ReadsNode i true (itemsText margin (i + 2) [' '] (v :: vs)) _
      rw [itemsText_lead hne]
      exact .list_inline (readsItems_itemsText hne hv (Nat.le_add_right_of_le hm))
    | false =>
      change ReadsNode i false (itemsText margin i (feed i) (v :: vs)) _
      rw [itemsText_lead hne]
      exact .list_beside (readsItems_itemsText hne hv hm) (List.cons_ne_nil _ _)
  | .obj (m :: ms), margin, i, inline, hv, hm => by
    have hne := List.cons_ne_nil m ms
    have hv : ∀ s ∈ Json.textsOfMembers (m :: ms), FeedsOnly s := hv
    have hentries := readsEntries_membersText (i := i + 2) hne hv (Nat.le_add_right_of_le hm)
    change ReadsNode i inline (membersText margin (i + 2) (if inline then [' '] else feed (i + 2)) (m :: ms)) _
    rw [membersText_lead hne]
    cases inline with
    | true => exact .record_inline hentries
    | false => exact .record_below hentries (by omega)

theorem readsItems_itemsText : ∀ {vs : List Json} {margin i : Nat}, vs ≠ [] →
    (∀ s ∈ Json.textsOfItems vs, FeedsOnly s) → margin ≤ i →
    ReadsItems i (itemsText margin i [] vs) (Json.treesOfItems vs)
  | [], _, _, hne, _, _ => absurd rfl hne
  | v :: vs, margin, i, _, hv, hm => by
    obtain ⟨hv, hvs⟩ := List.forall_mem_append.1 hv
    have hnode : ReadsNode i true (nodeText margin i true v) v.tree := readsNode_nodeText hv hm
    rw [itemsText, Json.treesOfItems, List.nil_append]
    obtain rfl | hne := eq_or_ne vs []
    · simpa [itemsText, Json.treesOfItems] using ReadsItems.one hnode
    · rw [itemsText_lead hne]
      exact .cons hnode (readsItems_itemsText hne hvs hm)

theorem readsEntries_membersText : ∀ {ms : List (String × Json)} {margin i : Nat}, ms ≠ [] →
    (∀ s ∈ Json.textsOfMembers ms, FeedsOnly s) → margin ≤ i →
    ReadsEntries i (membersText margin i [] ms) (Json.treesOfMembers ms)
  | [], _, _, hne, _, _ => absurd rfl hne
  | (n, v) :: ms, margin, i, _, hv, hm => by
    obtain ⟨hn, hv⟩ := List.forall_mem_cons.1 hv
    obtain ⟨hv, hms⟩ := List.forall_mem_append.1 hv
    have hentry : ReadsEntries i (if (Value.str n).isSimpleKey then
          scalarText margin (i + 2) true n ++ ':' :: nodeText margin i false v
        else '?' :: ' ' :: scalarText margin (i + 2) false n ++ (feed i ++ ':' :: nodeText margin i true v))
        [(textTree (Value.str n).isSimpleKey n, v.tree)] := by
      split
      next hs =>
        rw [hs]
        exact .entry (readsKey_text hs hm) (readsNode_nodeText hv hm)
      next hs =>
        rw [eq_false_of_ne_true hs]
        exact .explicit (readsNode_text hn hm) (readsNode_nodeText hv hm)
    rw [membersText, Json.treesOfMembers, List.nil_append]
    obtain rfl | hne := eq_or_ne ms []
    · simpa [membersText, Json.treesOfMembers] using hentry
    · rw [membersText_lead hne]
      exact hentry.append (readsEntries_membersText hne hms hm)

end

theorem isPrintable_of_isShown {c : Char} (h : isShown c) : TokenStream.isPrintable c := by
  have hvalid : c.toNat < 0xD800 ∨ 0xDFFF < c.toNat ∧ c.toNat < 0x110000 := c.valid
  simp only [isShown, Bool.or_eq_true, Bool.and_eq_true, decide_eq_true_eq, beq_iff_eq, bne_iff_ne] at h
  simp only [TokenStream.isPrintable, Bool.or_eq_true, Bool.and_eq_true, decide_eq_true_eq, beq_iff_eq]
  omega

/-- A document that is a record, up to the depth that a reader takes. -/
theorem ReadsEntries.readTree_eq {cs : List Char} {entries : List (Tree × Tree)} {s : String}
    (h : ReadsEntries 0 cs entries) (hs : s.toList = cs ++ ['\n']) (hp : ∀ c ∈ cs, isShown c)
    (ha : (Tree.record none entries).aliases = 0) :
    readTree s = if (Tree.record none entries).depth ≤ 128 then some (.record none entries) else none := by
  have hopens : TokenStream.Opens .blockMapping 0 [] [] [0] [.blockMapping] := .first (by simp)
  obtain ⟨us, l, o, hus, hleads⟩ := h.read hopens 0 0 0 [] (by simp [Starts]) (Nat.le_refl 0)
  have hprintable : s.toList.all TokenStream.isPrintable := by
    rw [List.all_eq_true, hs]
    exact List.forall_mem_append.2 ⟨fun c hc => isPrintable_of_isShown (hp c hc), List.all_eq_true.1 (by decide)⟩
  have htext : s.toList = cs ++ (feed 0 ++ []) := hs
  have htokens : TokenStream.ofText s = some (.blockMapping :: us ++ [.blockEnd]) := by
    have hend := TokenStream.ofText_eq hprintable (by rw [htext]; exact hleads)
    simpa using hend
  obtain ⟨e, hread⟩ := hus.ofTokens_eq
  rw [readTree, htokens]
  simp only [Option.bind_eq_bind, Option.bind_some, hread, ha, Nat.zero_le, decide_true, Bool.and_true,
    decide_eq_true_eq]

end Yaml

namespace Json

mutual

theorem aliases_tree : ∀ v : Json, v.tree.aliases = 0
  | .null => rfl
  | .bool _ => rfl
  | .int _ => rfl
  | .float _ => rfl
  | .str _ => rfl
  | .arr vs => aliases_treesOfItems vs
  | .obj ms => aliases_treesOfMembers ms

theorem aliases_treesOfItems : ∀ vs : List Json, Yaml.Tree.aliasesOfItems (treesOfItems vs) = 0
  | [] => rfl
  | v :: vs => by rw [treesOfItems, Yaml.Tree.aliasesOfItems, aliases_tree v, aliases_treesOfItems vs]

theorem aliases_treesOfMembers : ∀ ms : List (String × Json), Yaml.Tree.aliasesOfEntries (treesOfMembers ms) = 0
  | [] => rfl
  | (n, v) :: ms => by
    rw [treesOfMembers, Yaml.Tree.aliasesOfEntries, aliases_tree v, aliases_treesOfMembers ms]
    rfl

end

end Json

/-- What is written of an object is read as its tree. -/
theorem Yaml.readTree_render {ms : List (String × Json)} (hne : ms ≠ []) (hv : (Json.obj ms).Lined) :
    readTree (Value.ofJson (.obj ms)).render =
      if (Json.obj ms).tree.depth ≤ 128 then some (Json.obj ms).tree else none :=
  (readsEntries_membersText hne hv (Nat.le_refl 0)).readTree_eq (toList_render hne hv)
    (shown_membersText ms 0 0 [] nofun) (Json.aliases_tree (.obj ms))

end OperatorScaffold

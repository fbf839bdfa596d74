import OperatorScaffold.Proofs.Yaml.Grammar
import OperatorScaffold.Proofs.Yaml.Literal
import OperatorScaffold.Proofs.Yaml.Quoted
import OperatorScaffold.Yaml.Reader
/-!
Texts in block style, put together from their parts. Each part is read as it is wherever it stands, as long as what
follows starts in a line of its own and is indented no deeper.
-/

namespace OperatorScaffold.Yaml

open Cursor (isBreakChar isBlankChar width)
open OperatorScaffold.Yaml.Tree TokenStream

variable {t : Token} {P Q S : List Token → Prop} {i k : Nat} {inline : Bool} {cs ds ks : List Char} {tree key : Tree}
  {items : List Tree} {entries : List (Tree × Tree)} {style : ScalarStyle} {text : String}

/-- Entries at the column `i` of a collection that `t` opens. -/
structure ReadsBlock (t : Token) (P : List Token → Prop) (i : Nat) (cs : List Char) : Prop where
  starts : ∀ rest, Starts (cs ++ rest)
  read : ∀ {is : List Nat} {ts : List Token} {is' : List Nat} {ts' : List Token}, Opens t i is ts is' ts' →
    ∀ (l o j : Nat) (rest : List Char), Starts rest → j ≤ i → ∃ us l' o', P us ∧
      Leads (fresh ⟨cs ++ (feed j ++ rest), l, i, o⟩ ts is) (fresh ⟨rest, l', j, o'⟩ (us.reverse ++ ts') is')

/-- A node behind an indicator of an entry at the column `i`; `inline` says that no more than indicators stand in front
of it in its line. -/
structure ReadsNode (i : Nat) (inline : Bool) (cs : List Char) (tree : Tree) : Prop where
  gap : ∀ rest, EndsToken (cs ++ rest)
  read : ∀ (ts : List Token) (is : List Nat) (l col o : Nat) (b : Bool) (j : Nat) (rest : List Char), i < col →
    (inline → b ∧ col = i + 1) → Starts rest → j ≤ i → ∃ us l' o', Spelled (!inline) us tree ∧
    Leads ⟨⟨cs ++ (feed j ++ rest), l, col, o⟩, ts, i :: is, [none], b⟩
      (fresh ⟨rest, l', j, o'⟩ (us.reverse ++ ts) (i :: is))

/-- A scalar in one line that is short enough for a key. -/
structure ReadsKey (i : Nat) (cs : List Char) (style : ScalarStyle) (text : String) : Prop where
  starts : ∀ rest, Starts (cs ++ rest)
  read : ∀ (ts : List Token) (is : List Nat) (l o : Nat) (rest : List Char), EndsToken rest → Within is i →
    ∃ required j' o', i ≤ j' ∧ o' ≤ o + 1024 ∧
    Leads (fresh ⟨cs ++ ':' :: rest, l, i, o⟩ ts is)
      ⟨⟨':' :: rest, l, j', o'⟩, .scalar style text :: ts, is, [some ⟨required, ts.length, l, i, o⟩], false⟩

def ReadsItems (i : Nat) (cs : List Char) (items : List Tree) : Prop :=
  ReadsBlock .blockSequence (SpelledItems · items) i cs

def ReadsEntries (i : Nat) (cs : List Char) (entries : List (Tree × Tree)) : Prop :=
  ReadsBlock .blockMapping (SpelledEntries · entries) i cs

namespace TokenStream

variable {ts us ts' : List Token} {is is' : List Nat} {keys : List (Option PossibleKey)} {rest : List Char} {b : Bool}
  {l j o : Nat}

theorem Opens.inside_of (h : Opens t j is ts is' ts') (us : List Token) : Opens t j is' us is' us := by
  cases h <;> exact .inside

theorem Opens.exists_cons (h : Opens t j is ts is' ts') : ∃ tail, is' = j :: tail := by
  cases h <;> exact ⟨_, rfl⟩

/-- A key that cannot come about any more is dropped. -/
theorem leads_stale (hs : Starts rest) (hk : Stale l keys) :
    Leads ⟨⟨rest, l + 1, j, o⟩, ts, is, keys, true⟩ (fresh ⟨rest, l + 1, j, o⟩ ts is) := by
  refine leads_of_settle ?_ (Nat.le_refl _)
  have hskip : skipGap (rest.length + 1) ⟨⟨rest, l + 1, j, o⟩, ts, is, keys, true⟩ =
      ⟨⟨rest, l + 1, j, o⟩, ts, is, keys, true⟩ :=
    skipGap_of_starts (n := 0) hs rest.length
  rw [settle_fresh hs, settle, hskip, expireKeys_of_stale hk (Nat.lt_succ_self l)]
  rfl

theorem leads_blank (hs : Starts rest) (hi : Within is (j + 1)) :
    Leads ⟨⟨' ' :: rest, l, j, o⟩, ts, is, [none], true⟩ (fresh ⟨rest, l, j + 1, o + 1⟩ ts is) := by
  refine leads_of_settle ?_ (Nat.le_succ _)
  rw [settle_fresh_of_within hs hi]
  exact settle_blanks (n := 1) hs hi rfl

/-- A token behind a blank. -/
theorem leads_behind_blank {s : TokenStream} {x : Char} (hs : Starts rest) (hi : Within is (j + 1))
    (hx : rest.head? = some x) (hnext : nextToken ⟨⟨rest, l, j + 1, o + 1⟩, ts, is, [none], b⟩ x = some s)
    (hlength : s.cursor.rest.length ≤ rest.length) : Leads ⟨⟨' ' :: rest, l, j, o⟩, ts, is, [none], b⟩ s := by
  have hsettle : settle ⟨⟨List.replicate 1 ' ' ++ rest, l, j, o⟩, ts, is, [none], b⟩ = _ := settle_blanks hs hi rfl
  exact leads_of_token hsettle hx hnext (Nat.lt_succ_of_le hlength)

theorem within_behind (h : i < j) : Within (i :: is) (j + 1) := by
  intro k hk
  obtain rfl := Option.some.inj hk
  omega

/-- What is saved of a key behind an indicator is stale in the next line. -/
theorem stale_behind {c : Cursor} (hi : i < c.column) (hl : c.line ≤ l) : Stale l [saved c ts (i :: is) b] :=
  stale_saved ts (i :: is) b (fun _ hk => Option.some.inj hk ▸ hi) hl

end TokenStream

theorem endsToken_feed (i : Nat) (rest : List Char) : EndsToken (feed i ++ rest) := by
  intro x hx
  obtain rfl := Option.some.inj hx
  rfl

theorem endsToken_blank (rest : List Char) : EndsToken (' ' :: rest) := by
  intro x hx
  obtain rfl := Option.some.inj hx
  rfl

theorem Gap.endsToken {g : List Char} {j : Nat} (h : Gap g j) (rest : List Char) : EndsToken (g ++ rest) := by
  cases h <;> exact fun x hx => Option.some.inj hx ▸ rfl

theorem PlainText.length_pos (hp : PlainText cs) : 0 < cs.length := by
  obtain ⟨w, more, hw, rfl⟩ := hp.words.exists_word
  exact List.length_pos_iff.2 (List.append_ne_nil_of_left_ne_nil hw.ne_nil more)

theorem PlainText.starts (hp : PlainText cs) (hm : '\ufeff' ∉ cs) (rest : List Char) : Starts (cs ++ rest) := by
  obtain ⟨w, more, hw, rfl⟩ := hp.words.exists_word
  obtain ⟨x, r, rfl⟩ := List.exists_cons_of_ne_nil hw.ne_nil
  intro y hy
  obtain rfl := Option.some.inj hy
  refine isTokenChar_of_lead (hp.lead x (r ++ more) rfl) (hw.solid x List.mem_cons_self) ?_
  rintro rfl
  exact hm (by simp)

theorem quote_starts (single : Bool) (rest : List Char) : Starts (Lexeme.quote single :: rest) := by
  intro x hx
  obtain rfl := Option.some.inj hx
  cases single <;> decide

/-- Line ends in front of lines, or behind them. -/
theorem flatMap_feed_append (f : List Char → List Char) (L : List (List Char)) (rest : List Char) :
    L.flatMap (fun l => '\n' :: f l) ++ '\n' :: rest = '\n' :: (L.flatMap (fun l => f l ++ ['\n']) ++ rest) := by
  induction L with
  | nil => rfl
  | cons l L ih => simp [ih]

namespace ReadsNode

/-- What is scanned of a plain scalar ends in the next line. -/
theorem plain (hp : PlainText cs) (hm : '\ufeff' ∉ cs) :
    ReadsNode i inline (' ' :: cs) (.scalar none .plain (.ofList cs)) where
  gap := fun rest => endsToken_blank (cs ++ rest)
  read ts is l col o b j rest hcol _ hs hj := by
    have hmarker : Lexeme.Unmarked ⟨cs ++ (feed j ++ rest), l, col + 1, o + 1⟩ :=
      Lexeme.unmarked_of_column (Nat.succ_pos col)
    obtain ⟨x, hx, hnext⟩ := nextToken_plain ts (i :: is) b hp hmarker rfl (by simp; omega)
      (Lexeme.endsPlain_feed hs (Nat.lt_succ_of_le hj))
    have hstale : Stale l [saved ⟨cs ++ (feed j ++ rest), l, col + 1, o + 1⟩ ts (i :: is) b] :=
      stale_behind (Nat.lt_succ_of_lt hcol) (Nat.le_refl l)
    have hwithin : Within (i :: is) (col + 1) := within_behind hcol
    refine ⟨_, _, _, .scalar, (leads_behind_blank (hp.starts hm _) hwithin hx hnext ?_).trans (leads_stale hs hstale)⟩
    simp [feed]
    omega

theorem quoted {single : Bool} {indent : Nat} {breaks : Char → Bool} {spell : Char → List Char}
    (hq : Lexeme.Quotable single breaks spell cs) (hspace : breaks ' ' = false) (hindent : 0 < indent) :
    ReadsNode i inline (' ' :: quotedScalar single indent breaks spell cs) (.scalar none .other (.ofList cs)) where
  gap := fun rest => endsToken_blank _
  read ts is l col o b j rest hcol _ hs hj := by
    have hend : (feed j ++ rest).head? ≠ some (Lexeme.quote single) := by cases single <;> simp [feed, Lexeme.quote]
    obtain ⟨l', j', o', hnext, hl, -⟩ := nextToken_quoted hq hspace hindent hend l (col + 1) (o + 1) ts (i :: is) b
    have hwithin : Within (i :: is) (col + 1) := within_behind hcol
    have hstale : Stale l' [saved ⟨Lexeme.quote single :: (quotedText indent breaks spell false cs ++
        Lexeme.quote single :: (feed j ++ rest)), l, col + 1, o + 1⟩ ts (i :: is) b] :=
      stale_behind (Nat.lt_succ_of_lt hcol) hl
    obtain ⟨l'', o'', hgap⟩ := leads_gap (.feed j) hs hstale
    refine ⟨_, _, _, .scalar, Leads.trans ?_ hgap⟩
    have htoken := leads_behind_blank (quote_starts single _) hwithin rfl hnext (by simp; omega)
    simpa [quotedScalar] using htoken

theorem literal {margin : Nat} (hne : cs ≠ []) (hb : ∀ x ∈ cs, isBreakChar x → x = '\n') (htab : cs.head? ≠ some '\t')
    (hm : margin ≤ i + 2) : ReadsNode i inline (' ' :: literalText margin (i + 2) cs)
      (.scalar none .literal (.ofList cs)) where
  gap := fun rest => endsToken_blank _
  read ts is l col o b j rest hcol _ hs hj := by
    obtain ⟨l', o', hnext⟩ := TokenStream.nextToken_literal hne hb htab hm hs hj l (col + 1) (o + 1) ts is b
    have hwithin : Within (i :: is) (col + 1) := within_behind hcol
    have hstarts (more : List Char) : Starts ('|' :: more) := fun x hx => Option.some.inj hx ▸ rfl
    have htoken := leads_behind_blank (o := o) (hstarts _) hwithin rfl hnext (by simp [fresh]; omega)
    refine ⟨_, l', o', .scalar, ?_⟩
    have htext : literalText margin (i + 2) cs ++ (feed j ++ rest) = '|' :: (Pen.literalHints cs ++
        '\n' :: (blockText margin (i + 2) (textLines cs) ++ (List.replicate j ' ' ++ rest))) := by
      rw [literalText, List.cons_append, List.cons_append, List.append_assoc]
      exact congrArg (fun more => '|' :: (Pen.literalHints cs ++ more))
        (flatMap_feed_append (blockLine margin (i + 2)) _ _)
    rw [List.cons_append, htext]
    exact htoken

/-- An empty collection in two characters. -/
theorem of_flow {x y : Char} {u : Token} (hspelled : Spelled (!inline) [t, u] tree)
    (hflow : ∀ (more : List Char) (ts : List Token) (is : List Nat) (l col o : Nat) (b : Bool), Within is (col + 1) →
      ∃ o', Leads ⟨⟨' ' :: x :: y :: more, l, col, o⟩, ts, is, [none], b⟩
        ⟨⟨more, l, col + 3, o'⟩, u :: t :: ts, is, [saved ⟨x :: y :: more, l, col + 1, o + 1⟩ ts is b], false⟩) :
    ReadsNode i inline [' ', x, y] tree where
  gap := fun rest => endsToken_blank _
  read ts is l col o b j rest hcol _ hs hj := by
    obtain ⟨o', hleads⟩ := hflow (feed j ++ rest) ts (i :: is) l col o b (within_behind hcol)
    have hstale : Stale l [saved ⟨x :: y :: (feed j ++ rest), l, col + 1, o + 1⟩ ts (i :: is) b] :=
      stale_behind (Nat.lt_succ_of_lt hcol) (Nat.le_refl l)
    obtain ⟨l', o'', hgap⟩ := leads_gap (.feed j) hs hstale
    exact ⟨[t, u], l', o'', hspelled, hleads.trans hgap⟩

theorem brackets : ReadsNode i inline [' ', '[', ']'] (.list none []) :=
  of_flow .noItems fun more ts _ l _ o b hi => leads_brackets (n := 1) more l o ts b hi

theorem braces : ReadsNode i inline [' ', '\x7b', '\x7d'] (.record none []) :=
  of_flow .noEntries fun more ts _ l _ o b hi => leads_braces (n := 1) more l o ts b hi

/-- A collection that starts in the line, or below at a column of its own. -/
theorem of_block {lead : List Char} (h : ReadsBlock t P k cs) (hk : i < k)
    (hlead : lead = feed k ∧ inline = false ∨ lead = [' '] ∧ inline = true ∧ k = i + 2)
    (hspelled : ∀ us, P us → Spelled (!inline) (t :: us ++ [.blockEnd]) tree) :
    ReadsNode i inline (lead ++ cs) tree where
  gap rest := by
    obtain ⟨rfl, -⟩ | ⟨rfl, -⟩ := hlead
    · rw [List.append_assoc]
      exact endsToken_feed k _
    · exact endsToken_blank _
  read ts is l col o b j rest hcol hinline hs hj := by
    have hstarts : Starts (cs ++ (feed j ++ rest)) := h.starts _
    obtain ⟨l', o', hfirst⟩ : ∃ l' o', Leads ⟨⟨lead ++ cs ++ (feed j ++ rest), l, col, o⟩, ts, i :: is, [none], b⟩
        (fresh ⟨cs ++ (feed j ++ rest), l', k, o'⟩ ts (i :: is)) := by
      rw [List.append_assoc]
      obtain ⟨rfl, -⟩ | ⟨rfl, hi, rfl⟩ := hlead
      · exact leads_gap (.feed k) hstarts (stale_none l)
      · obtain ⟨rfl, rfl⟩ := hinline hi
        exact ⟨l, o + 1, leads_blank hstarts (by simp [Within]; omega)⟩
    have hopens : Opens t k (i :: is) ts (k :: i :: is) (t :: ts) := .first (by simpa using hk)
    obtain ⟨us, l'', o'', hus, hblock⟩ := h.read hopens l' o' j rest hs (by omega)
    refine ⟨_, l'', o'', hspelled us hus, hfirst.trans (hblock.trans ?_)⟩
    simpa using leads_close (us.reverse ++ t :: ts) (i :: is) hs (show j < k by omega)

theorem list_inline (h : ReadsItems (i + 2) cs items) : ReadsNode i true (' ' :: cs) (.list none items) :=
  (of_block h (by omega) (.inr ⟨rfl, rfl, rfl⟩) fun _ => .list : ReadsNode i true ([' '] ++ cs) _)

theorem list_below (h : ReadsItems k cs items) (hk : i < k) : ReadsNode i false (feed k ++ cs) (.list none items) :=
  of_block h hk (.inl ⟨rfl, rfl⟩) fun _ => .list

theorem record_inline (h : ReadsEntries (i + 2) cs entries) : ReadsNode i true (' ' :: cs) (.record none entries) :=
  (of_block h (by omega) (.inr ⟨rfl, rfl, rfl⟩) fun _ => .record : ReadsNode i true ([' '] ++ cs) _)

theorem record_below (h : ReadsEntries k cs entries) (hk : i < k) :
    ReadsNode i false (feed k ++ cs) (.record none entries) :=
  of_block h hk (.inl ⟨rfl, rfl⟩) fun _ => .record

/-- The items of a list that is the value of a key can stand at the column of the key. -/
theorem list_beside (h : ReadsItems i cs items) (hne : items ≠ []) :
    ReadsNode i false (feed i ++ cs) (.list none items) where
  gap rest := by
    rw [List.append_assoc]
    exact endsToken_feed i _
  read ts is l col o b j rest _ _ hs hj := by
    rw [List.append_assoc]
    obtain ⟨l', o', hfirst⟩ : ∃ l' o', Leads ⟨⟨feed i ++ (cs ++ (feed j ++ rest)), l, col, o⟩, ts, i :: is, [none], b⟩
        (fresh ⟨cs ++ (feed j ++ rest), l', i, o'⟩ ts (i :: is)) := leads_gap (.feed i) (h.starts _) (stale_none l)
    obtain ⟨us, l'', o'', hus, hblock⟩ := h.read .inside l' o' j rest hs hj
    exact ⟨us, l'', o'', .indentless hus hne, hfirst.trans hblock⟩

end ReadsNode

namespace ReadsBlock

/-- An entry and more of them in the lines behind it. -/
theorem append (h : ReadsBlock t P i cs) (h' : ReadsBlock t Q i ds) (hS : ∀ us vs, P us → Q vs → S (us ++ vs)) :
    ReadsBlock t S i (cs ++ (feed i ++ ds)) where
  starts rest := by
    rw [List.append_assoc]
    exact h.starts _
  read {is ts is' ts'} hopens l o j rest hs hj := by
    obtain ⟨us, l', o', hus, hfirst⟩ := h.read hopens l o i (ds ++ (feed j ++ rest)) (h'.starts _) (Nat.le_refl i)
    obtain ⟨vs, l'', o'', hvs, hmore⟩ := h'.read (hopens.inside_of (us.reverse ++ ts')) l' o' j rest hs hj
    refine ⟨us ++ vs, l'', o'', hS us vs hus hvs, ?_⟩
    simpa using hfirst.trans hmore

end ReadsBlock

namespace ReadsItems

theorem one (h : ReadsNode i true cs tree) : ReadsItems i ('-' :: cs) [tree] where
  starts rest x hx := Option.some.inj hx ▸ rfl
  read {is ts is' ts'} hopens l o j rest hs hj := by
    obtain ⟨tail, rfl⟩ := hopens.exists_cons
    have hdash := leads_blockEntry (l := l) (o := o) hopens (h.gap (feed j ++ rest))
    obtain ⟨us, l', o', hus, hnode⟩ := h.read (.blockEntry :: ts') tail l (i + 1) (o + 1) true j rest
      (Nat.lt_succ_self i) (fun _ => ⟨rfl, rfl⟩) hs hj
    refine ⟨.blockEntry :: us ++ [], l', o', .cons hus .nil, ?_⟩
    simpa using hdash.trans hnode

theorem cons (h : ReadsNode i true cs tree) (hmore : ReadsItems i ds items) :
    ReadsItems i ('-' :: cs ++ (feed i ++ ds)) (tree :: items) :=
  ReadsBlock.append (one h) hmore fun _ _ hone hmore => hone.append hmore

end ReadsItems

namespace ReadsKey

theorem plain (hp : PlainText cs) (hmarker : looksLikeMarker cs = false) (hm : '\ufeff' ∉ cs)
    (hwidth : width cs ≤ 1024) : ReadsKey i cs .plain (.ofList cs) where
  starts := hp.starts hm
  read ts is l o rest hr hi := by
    have hunmarked : Lexeme.Unmarked ⟨cs ++ ':' :: rest, l, i, o⟩ := unmarked_of_text hmarker (by simp) (by simp)
    have hleast : (is.head?.map (· + 1)).getD 0 ≤ i + 1 := by
      cases is with
      | nil => simp
      | cons j is => simpa using hi j rfl
    obtain ⟨x, hx, hnext⟩ := nextToken_plain ts is true hp hunmarked rfl hleast (Lexeme.endsPlain_colon hr)
    refine ⟨is.head? == some i, i + cs.length, o + width cs, by omega, by omega, ?_⟩
    exact leads_of_token (settle_fresh_of_within (hp.starts hm _) hi) hx hnext (by simp [fresh, hp.length_pos])

theorem quoted {single : Bool} {indent : Nat} {breaks : Char → Bool} {spell : Char → List Char}
    (hq : Lexeme.Quotable single breaks spell cs) (hspace : breaks ' ' = false) (hindent : 0 < indent)
    (hline : ∀ c ∈ cs, breaks c = false) (hwidth : width (quotedText indent breaks spell false cs) + 2 ≤ 1024) :
    ReadsKey i (quotedScalar single indent breaks spell cs) .other (.ofList cs) where
  starts rest := quote_starts single _
  read ts is l o rest hr hi := by
    have hend : (':' :: rest).head? ≠ some (Lexeme.quote single) := by cases single <;> simp [Lexeme.quote]
    obtain ⟨l', j', o', hnext, -, hexact⟩ := nextToken_quoted hq hspace hindent hend l i o ts is true
    obtain ⟨rfl, hj, ho⟩ := hexact hline
    refine ⟨is.head? == some i, j', o', hj.le, by omega, ?_⟩
    have htoken := leads_of_token (settle_fresh_of_within (quote_starts single _) hi) rfl hnext (by simp [fresh]; omega)
    simpa [quotedScalar, saved] using htoken

end ReadsKey

namespace ReadsEntries

theorem entry (hk : ReadsKey i ks style text) (hv : ReadsNode i false cs tree) :
    ReadsEntries i (ks ++ ':' :: cs) [(.scalar none style text, tree)] where
  starts rest := by
    rw [List.append_assoc]
    exact hk.starts _
  read {is ts is' ts'} hopens l o j rest hs hj := by
    obtain ⟨tail, rfl⟩ := hopens.exists_cons
    obtain ⟨required, j', o', hj', ho', hkey⟩ := hk.read ts is l o (cs ++ (feed j ++ rest)) (hv.gap _) hopens.within
    have hcolon := leads_value required (.scalar style text) l hopens (hv.gap (feed j ++ rest)) hj' ho'
    obtain ⟨us, l'', o'', hus, hnode⟩ := hv.read (.value :: .scalar style text :: .key :: ts') tail l (j' + 1) (o' + 1)
      false j rest (by omega) nofun hs hj
    refine ⟨.key :: [.scalar style text] ++ .value :: us ++ [], l'', o'', .cons .scalar hus .nil, ?_⟩
    simpa using hkey.trans (hcolon.trans hnode)

/-- An entry without a value, with lines of comments behind it. -/
theorem missing (hk : ReadsKey i ks style text) (hc : ∀ j, Gap (cs ++ feed j) j) :
    ReadsEntries i (ks ++ ':' :: cs) [(.scalar none style text, .scalar none .plain "")] where
  starts rest := by
    rw [List.append_assoc]
    exact hk.starts _
  read {is ts is' ts'} hopens l o j rest hs hj := by
    have hgap : EndsToken (cs ++ (feed j ++ rest)) := List.append_assoc _ _ _ ▸ (hc j).endsToken rest
    obtain ⟨required, j', o', hj', ho', hkey⟩ := hk.read ts is l o (cs ++ (feed j ++ rest)) hgap hopens.within
    have hcolon := leads_value required (.scalar style text) l hopens hgap hj' ho'
    obtain ⟨l'', o'', hskip⟩ : ∃ l'' o'', Leads
        ⟨⟨cs ++ feed j ++ rest, l, j' + 1, o' + 1⟩, .value :: .scalar style text :: .key :: ts', is', [none], false⟩
        (fresh ⟨rest, l'', j, o''⟩ (.value :: .scalar style text :: .key :: ts') is') :=
      leads_gap (hc j) hs (stale_none l)
    refine ⟨.key :: [.scalar style text] ++ .value :: [], l'', o'', .missing .scalar .nil, ?_⟩
    simpa using hkey.trans (hcolon.trans (by simpa using hskip))

theorem explicit (hk : ReadsNode i true ks key) (hv : ReadsNode i true cs tree) :
    ReadsEntries i ('?' :: ks ++ (feed i ++ ':' :: cs)) [(key, tree)] where
  starts rest x hx := Option.some.inj hx ▸ rfl
  read {is ts is' ts'} hopens l o j rest hs hj := by
    obtain ⟨tail, rfl⟩ := hopens.exists_cons
    have hmark := leads_explicitKey (l := l) (o := o) hopens (hk.gap (feed i ++ (':' :: cs ++ (feed j ++ rest))))
    have hcolon : Starts (':' :: cs ++ (feed j ++ rest)) := fun x hx => Option.some.inj hx ▸ rfl
    obtain ⟨us, l', o', hus, hkey⟩ := hk.read (.key :: ts') tail l (i + 1) (o + 1) true i _ (Nat.lt_succ_self i)
      (fun _ => ⟨rfl, rfl⟩) hcolon (Nat.le_refl i)
    have hvalue := leads_explicitValue (l := l') (o := o') (j := i) (us.reverse ++ .key :: ts') tail
      (hv.gap (feed j ++ rest))
    obtain ⟨vs, l'', o'', hvs, hnode⟩ := hv.read (.value :: (us.reverse ++ .key :: ts')) tail l' (i + 1) (o' + 1) true j
      rest (Nat.lt_succ_self i) (fun _ => ⟨rfl, rfl⟩) hs hj
    refine ⟨.key :: us ++ .value :: vs ++ [], l'', o'', .cons hus.anywhere hvs.anywhere .nil, ?_⟩
    simpa using hmark.trans (hkey.trans (hvalue.trans hnode))

theorem append {more : List (Tree × Tree)} (h : ReadsEntries i cs entries) (hmore : ReadsEntries i ds more) :
    ReadsEntries i (cs ++ (feed i ++ ds)) (entries ++ more) :=
  ReadsBlock.append h hmore fun _ _ hus hvs => hus.append hvs

end ReadsEntries

end OperatorScaffold.Yaml

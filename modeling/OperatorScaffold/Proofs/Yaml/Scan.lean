import Mathlib.Algebra.GroupWithZero.Nat
import Mathlib.Tactic.Common
import OperatorScaffold.Yaml.TokenStream
/-!
The steps of the scanner. One state leads to another where scanning goes on from both alike; between two
tokens only the column of the next one is of account.
-/

namespace OperatorScaffold.Yaml

open Cursor (isBreakChar isBlankChar)

namespace Cursor

variable {w rest : List Char} {x : Char} {l j o : Nat}

/-- How many bytes the characters take. -/
def width (cs : List Char) : Nat := (cs.map Char.utf8Size).sum

theorem skip_append (w : List Char) (rest : List Char) (l j o : Nat) :
    (⟨w ++ rest, l, j, o⟩ : Cursor).skip w.length = ⟨rest, l, j + w.length, o + width w⟩ := by
  induction w generalizing j o with
  | nil => rfl
  | cons x w ih =>
    refine (ih (j + 1) (o + x.utf8Size)).trans ?_
    simp [width, Nat.add_assoc, Nat.add_comm 1]

theorem width_blanks (n : Nat) : width (List.replicate n ' ') = n := by
  simp [width, show ' '.utf8Size = 1 from rfl]

theorem skip_blanks (n : Nat) (rest : List Char) (l j o : Nat) :
    (⟨List.replicate n ' ' ++ rest, l, j, o⟩ : Cursor).skip n = ⟨rest, l, j + n, o + n⟩ := by
  have h := skip_append (List.replicate n ' ') rest l j o
  rwa [List.length_replicate, width_blanks] at h

theorem skipWhile_append {p : Char → Bool} (hw : ∀ x ∈ w, p x) (hr : ∀ x ∈ rest.head?, ¬p x) :
    (⟨w ++ rest, l, j, o⟩ : Cursor).skipWhile p = ⟨rest, l, j + w.length, o + width w⟩ := by
  have htake : (w ++ rest).takeWhile p = w := by
    rw [List.takeWhile_append_of_pos hw]
    cases rest with
    | nil => simp
    | cons x rest => simp [hr x rfl]
  change (⟨w ++ rest, l, j, o⟩ : Cursor).skip ((w ++ rest).takeWhile p).length = _
  rw [htake, skip_append]

end Cursor

/-- Nothing that stands between tokens. -/
def isTokenChar (x : Char) : Bool :=
  !(x == ' ' || x == '\t' || x == '#' || x == '\ufeff' || isBreakChar x)

/-- What is left of the text starts with a token. -/
def Starts (cs : List Char) : Prop := ∀ x ∈ cs.head?, isTokenChar x

/-- What is left of the text ends a token in front of it. -/
def EndsToken (cs : List Char) : Prop := ∀ x ∈ cs.head?, isBlankChar x || isBreakChar x

section

variable {cs : List Char} {x y : Char} {l j o : Nat}

theorem atMarker_eq_false (h : ∀ z ∈ cs.head?, z ≠ y) : (⟨x :: cs, l, j, o⟩ : Cursor).atMarker y = false := by
  have hmarker : [y, y, y].isPrefixOf (x :: cs) = false := by
    cases cs with
    | nil => simp [List.isPrefixOf]
    | cons z cs => simp [List.isPrefixOf, Ne.symm (h z rfl)]
  simp only [Cursor.atMarker, hmarker, Bool.and_false, Bool.false_and]

theorem gapAt_one (hc : EndsToken cs) : (⟨x :: cs, l, j, o⟩ : Cursor).gapAt 1 = true := by
  cases cs with
  | nil => rfl
  | cons z cs => simpa [Cursor.gapAt, Cursor.peekAt?] using hc z rfl

theorem EndsToken.atMarker (hc : EndsToken cs) :
    (⟨x :: cs, l, j, o⟩ : Cursor).atMarker '-' = false ∧ (⟨x :: cs, l, j, o⟩ : Cursor).atMarker '.' = false := by
  constructor <;> refine atMarker_eq_false fun z hz => ?_ <;> rintro rfl <;> exact absurd (hc _ hz) (by decide)

end

/-- A line end, and the indentation of the next line. -/
def feed (i : Nat) : List Char := '\n' :: List.replicate i ' '

/-- A line end and what follows up to a column: indentation, and lines of comments in front of it. -/
inductive Gap : List Char → Nat → Prop
  | feed (j : Nat) : Gap (feed j) j
  | comment {n j : Nat} {w g : List Char} : (∀ x ∈ w, !isBreakChar x) → Gap g j →
      Gap ('\n' :: List.replicate n ' ' ++ '#' :: w ++ g) j

namespace TokenStream

variable {s s' t : TokenStream} {cs g : List Char} {x : Char} {ts : List Token} {is : List Nat}
  {keys : List (Option PossibleKey)} {b : Bool} {l j o n i : Nat}

/-- To the next token, with the collections closed that end in front of it. -/
def settle (s : TokenStream) : Option TokenStream := do
  let s ← (s.skipGap (s.cursor.rest.length + 1)).expireKeys
  some (s.unindent (some s.cursor.column))

theorem run_succ (n : Nat) (s : TokenStream) : run (n + 1) s = s.settle.bind fun s =>
    match s.cursor.peek? with
    | none => s.finish
    | some x => (s.nextToken x).bind (run n) := by
  rw [run, settle]
  cases (s.skipGap (s.cursor.rest.length + 1)).expireKeys <;> rfl

/-- Scanning goes on from the second state as from the first, which is not nearer to the end. -/
def Leads (s s' : TokenStream) : Prop :=
  ∃ n, n + s'.cursor.rest.length ≤ s.cursor.rest.length ∧ ∀ m, run (n + m) s = run m s'

theorem Leads.refl (s : TokenStream) : Leads s s := ⟨0, by simp, fun m => by rw [Nat.zero_add]⟩

theorem Leads.trans (h : Leads s s') (h' : Leads s' t) : Leads s t := by
  obtain ⟨n, hn, h⟩ := h
  obtain ⟨n', hn', h'⟩ := h'
  exact ⟨n + n', by omega, fun m => by rw [Nat.add_assoc, h, h']⟩

theorem leads_of_settle (h : s.settle = s'.settle) (hl : s'.cursor.rest.length ≤ s.cursor.rest.length) :
    Leads s s' := by
  refine ⟨0, by omega, fun m => ?_⟩
  cases m with
  | zero => rfl
  | succ m => rw [Nat.zero_add, run_succ, run_succ, h]

theorem leads_of_token (h : s.settle = some t) (hx : t.cursor.peek? = some x) (ht : t.nextToken x = some s')
    (hl : s'.cursor.rest.length < s.cursor.rest.length) : Leads s s' := by
  refine ⟨1, by omega, fun m => ?_⟩
  rw [Nat.add_comm, run_succ, h, Option.bind_some, hx]
  simp only [ht, Option.bind_some]

/-- Keys that a line end drops. -/
def Stale (l : Nat) (keys : List (Option PossibleKey)) : Prop :=
  ∃ key, keys = [key] ∧ ∀ k ∈ key, k.required = false ∧ k.line ≤ l

theorem stale_none (l : Nat) : Stale l [none] := ⟨none, rfl, nofun⟩

/-- The state in which an entry can start. -/
def fresh (c : Cursor) (ts : List Token) (is : List Nat) : TokenStream := ⟨c, ts, is, [none], true⟩

/-- Blanks in front are passed, if what is behind them is none. -/
theorem skipGap_of_blanks (m : Nat) (hc : ∀ x ∈ cs.head?, x ≠ ' ' ∧ x ≠ '\t' ∧ x ≠ '\ufeff') :
    skipGap (m + 1) ⟨⟨List.replicate n ' ' ++ cs, l, j, o⟩, ts, is, keys, b⟩ =
      (let c := (⟨cs, l, j + n, o + n⟩ : Cursor).skipComment
      if c.atBreak then skipGap m ⟨c.takeBreak.2, ts, is, keys, b || !decide (1 < keys.length)⟩
      else ⟨c, ts, is, keys, b⟩) := by
  have hmark : (⟨List.replicate n ' ' ++ cs, l, j, o⟩ : Cursor).atChar '\ufeff' = false := by
    cases n with
    | zero =>
      cases cs with
      | nil => rfl
      | cons x cs => simpa [Cursor.atChar, Cursor.peek?] using (hc x rfl).2.2
    | succ n => rfl
  have hskip (tabs : Bool) : (⟨List.replicate n ' ' ++ cs, l, j, o⟩ : Cursor).skipWhile
      (fun x => x == ' ' || (tabs && x == '\t')) = ⟨cs, l, j + n, o + n⟩ := by
    rw [Cursor.skipWhile_append]
    · rw [List.length_replicate, Cursor.width_blanks]
    · intro x hx
      rw [List.eq_of_mem_replicate hx]
      rfl
    · intro x hx
      obtain ⟨hblank, htab, -⟩ := hc x hx
      simp [hblank, htab]
  rw [skipGap]
  simp only [hmark, Bool.and_false, Bool.false_eq_true, if_false, hskip]
  rfl

theorem skipGap_of_starts (hs : Starts cs) (m : Nat) :
    skipGap (m + 1) ⟨⟨List.replicate n ' ' ++ cs, l, j, o⟩, ts, is, keys, b⟩ =
      ⟨⟨cs, l, j + n, o + n⟩, ts, is, keys, b⟩ := by
  rw [skipGap_of_blanks]
  · cases cs with
    | nil => rfl
    | cons x cs =>
      have hx := hs x rfl
      simp [isTokenChar] at hx
      simp [Cursor.skipComment, Cursor.atChar, Cursor.peek?, Cursor.atBreak, hx]
  · intro x hx
    have hx := hs x hx
    simp [isTokenChar] at hx
    simp [hx]

theorem skipGap_of_feed (m : Nat) : skipGap (m + 1) ⟨⟨'\n' :: cs, l, j, o⟩, ts, is, keys, b⟩ =
    skipGap m ⟨⟨cs, l + 1, 0, o + 1⟩, ts, is, keys, b || !decide (1 < keys.length)⟩ := by
  have hhead : ∀ x ∈ ('\n' :: cs).head?, x ≠ ' ' ∧ x ≠ '\t' ∧ x ≠ '\ufeff' := by simp
  exact skipGap_of_blanks (n := 0) m hhead

theorem skipGap_of_comment {w : List Char} (hw : ∀ x ∈ w, !isBreakChar x) (m n : Nat) : ∃ j' o',
    skipGap (m + 1) ⟨⟨List.replicate n ' ' ++ '#' :: w ++ '\n' :: cs, l, j, o⟩, ts, is, keys, b⟩ =
      skipGap (m + 1) ⟨⟨'\n' :: cs, l, j', o'⟩, ts, is, keys, b⟩ := by
  have hcomment : (⟨'#' :: w ++ '\n' :: cs, l, j + n, o + n⟩ : Cursor).skipComment =
      ⟨'\n' :: cs, l, j + n + (w.length + 1), o + n + Cursor.width ('#' :: w)⟩ :=
    Cursor.skipWhile_append (List.forall_mem_cons.2 ⟨rfl, hw⟩) (by simp [isBreakChar])
  refine ⟨j + n + (w.length + 1), o + n + Cursor.width ('#' :: w), ?_⟩
  rw [List.append_assoc, skipGap_of_blanks m (by simp), hcomment, skipGap_of_feed]
  rfl

/-- Past a line end and comments behind it, where an entry can start. -/
theorem skipGap_of_gap (hg : Gap g i) (hs : Starts cs) (hk : keys.length = 1) : ∀ (m l j o : Nat) (b : Bool),
    g.length ≤ m → ∃ l' o', l < l' ∧
      skipGap (m + 1) ⟨⟨g ++ cs, l, j, o⟩, ts, is, keys, b⟩ = ⟨⟨cs, l', i, o'⟩, ts, is, keys, true⟩ := by
  induction hg with
  | feed i =>
    intro m l j o b hm
    obtain _ | m := m
    · simp [feed] at hm
    refine ⟨l + 1, o + 1 + i, Nat.lt_succ_self l, ?_⟩
    rw [feed, List.cons_append, skipGap_of_feed, skipGap_of_starts hs, Nat.zero_add]
    simp [hk]
  | @comment n i w g hw hg ih =>
    intro m l j o b hm
    obtain _ | m := m
    · simp at hm
    obtain ⟨more, hmore⟩ : ∃ more, g ++ cs = '\n' :: more := by cases hg <;> exact ⟨_, rfl⟩
    obtain ⟨j', o', hcomment⟩ : ∃ j' o', skipGap (m + 1) _ =
        skipGap (m + 1) ⟨⟨'\n' :: more, l + 1, j', o'⟩, ts, is, keys, b || !decide (1 < keys.length)⟩ :=
      skipGap_of_comment hw m n
    obtain ⟨l', o'', hl, h⟩ := ih m (l + 1) j' o' (b || !decide (1 < keys.length)) (by simp at hm; omega)
    refine ⟨l', o'', by omega, ?_⟩
    rw [← h, hmore, ← hcomment, ← hmore, List.append_assoc, List.cons_append, List.cons_append, skipGap_of_feed]

theorem expireKeys_of_stale {c : Cursor} (hk : Stale l keys) (hl : l < c.line) :
    expireKeys ⟨c, ts, is, keys, b⟩ = some ⟨c, ts, is, [none], b⟩ := by
  obtain ⟨key, rfl, hkey⟩ := hk
  cases key with
  | none => rfl
  | some k =>
    obtain ⟨hrequired, hline⟩ := hkey k rfl
    have hlt : k.line < c.line := by omega
    simp [expireKeys, expire, hlt, hrequired]

theorem settle_fresh (hs : Starts cs) :
    settle (fresh ⟨cs, l, j, o⟩ ts is) = some ((fresh ⟨cs, l, j, o⟩ ts is).unindent (some j)) := by
  have hskip : skipGap (cs.length + 1) ⟨⟨cs, l, j, o⟩, ts, is, [none], true⟩ = ⟨⟨cs, l, j, o⟩, ts, is, [none], true⟩ :=
    skipGap_of_starts (n := 0) hs cs.length
  rw [settle, fresh, hskip]
  rfl

/-- Behind a line end an entry can start. -/
theorem settle_gap (hg : Gap g i) (hs : Starts cs) (hk : Stale l keys) : ∃ l' o',
    settle ⟨⟨g ++ cs, l, j, o⟩, ts, is, keys, b⟩ = settle (fresh ⟨cs, l', i, o'⟩ ts is) := by
  have hlength : keys.length = 1 := by
    obtain ⟨key, rfl, -⟩ := hk
    rfl
  obtain ⟨l', o', hl, hskip⟩ := skipGap_of_gap hg hs hlength (g ++ cs).length l j o b (by simp)
  refine ⟨l', o', ?_⟩
  rw [settle_fresh hs, settle, hskip, expireKeys_of_stale hk hl]
  rfl

theorem leads_gap (hg : Gap g i) (hs : Starts cs) (hk : Stale l keys) : ∃ l' o',
    Leads ⟨⟨g ++ cs, l, j, o⟩, ts, is, keys, b⟩ (fresh ⟨cs, l', i, o'⟩ ts is) := by
  obtain ⟨l', o', h⟩ := settle_gap hg hs hk
  exact ⟨l', o', leads_of_settle h (by simp [fresh])⟩

/-- The innermost collection starts no deeper than the column. -/
def Within (is : List Nat) (j : Nat) : Prop := ∀ i ∈ is.head?, i ≤ j

theorem closeBlocks_of_within (h : Within is j) : closeBlocks (some j) is ts = (is, ts) := by
  cases is with
  | nil => rfl
  | cons i is => rw [closeBlocks, if_neg (by simpa using h i rfl)]

theorem unindent_of_within (h : Within s.indents j) : s.unindent (some j) = s := by
  rw [unindent]
  split
  · rfl
  · rw [closeBlocks_of_within h]

/-- A collection ends in front of what starts left of it. -/
theorem leads_close (ts : List Token) (is : List Nat) (hs : Starts cs) (h : j < i) :
    Leads (fresh ⟨cs, l, j, o⟩ ts (i :: is)) (fresh ⟨cs, l, j, o⟩ (.blockEnd :: ts) is) := by
  refine leads_of_settle ?_ (Nat.le_refl _)
  rw [settle_fresh hs, settle_fresh hs]
  simp [fresh, unindent, inFlow, closeBlocks, h]

theorem settle_blanks (hs : Starts cs) (hi : Within is (j + n))
    (hk : keys.mapM (expire ⟨cs, l, j + n, o + n⟩) = some keys) :
    settle ⟨⟨List.replicate n ' ' ++ cs, l, j, o⟩, ts, is, keys, b⟩ =
      some ⟨⟨cs, l, j + n, o + n⟩, ts, is, keys, b⟩ := by
  rw [settle, skipGap_of_starts hs, expireKeys, hk]
  exact congrArg some (unindent_of_within hi)

theorem settle_fresh_of_within (hs : Starts cs) (hi : Within is j) :
    settle (fresh ⟨cs, l, j, o⟩ ts is) = some (fresh ⟨cs, l, j, o⟩ ts is) := by
  rw [settle_fresh hs, unindent_of_within (s := fresh ⟨cs, l, j, o⟩ ts is) hi]

/-- The open collections and the tokens before an entry at a column, and those with the collection that the
entry is in. -/
inductive Opens (t : Token) (j : Nat) : List Nat → List Token → List Nat → List Token → Prop
  | inside {is : List Nat} {ts : List Token} : Opens t j (j :: is) ts (j :: is) ts
  | first {is : List Nat} {ts : List Token} : (∀ i ∈ is.head?, i < j) → Opens t j is ts (j :: is) (t :: ts)

theorem Opens.within {t : Token} {is' : List Nat} {ts' : List Token} (h : Opens t j is ts is' ts') : Within is j := by
  cases h with
  | inside => exact fun i hi => Nat.le_of_eq (Option.some.inj hi).symm
  | first h => exact fun i hi => Nat.le_of_lt (h i hi)

section

variable {t : Token} {is' : List Nat} {ts' : List Token}

/-- Whatever has been read of the entry stands behind the token that opens its collection. -/
theorem indentTo_of_opens (h : Opens t j is ts is' ts') (us : List Token) (c : Cursor) :
    indentTo ⟨c, us ++ ts, is, [none], b⟩ j ts.length t = ⟨c, us ++ ts', is', [none], b⟩ := by
  cases h with
  | inside => simp [indentTo, inFlow, indent?]
  | first h =>
    have hany : is.head?.any (j ≤ ·) = false := by
      cases is with
      | nil => rfl
      | cons i is => simpa using h i rfl
    simp [indentTo, inFlow, indent?, hany, insertAt]

theorem nextToken_dash (hc : EndsToken cs) :
    nextToken ⟨⟨'-' :: cs, l, j, o⟩, ts, is, keys, b⟩ '-' = blockEntry ⟨⟨'-' :: cs, l, j, o⟩, ts, is, keys, b⟩ := by
  simp [nextToken, hc.atMarker, gapAt_one hc]

theorem nextToken_question (hc : EndsToken cs) :
    nextToken ⟨⟨'?' :: cs, l, j, o⟩, ts, is, keys, b⟩ '?' = explicitKey ⟨⟨'?' :: cs, l, j, o⟩, ts, is, keys, b⟩ := by
  simp [nextToken, hc.atMarker, gapAt_one hc]

theorem nextToken_colon (hc : EndsToken cs) :
    nextToken ⟨⟨':' :: cs, l, j, o⟩, ts, is, keys, b⟩ ':' = value ⟨⟨':' :: cs, l, j, o⟩, ts, is, keys, b⟩ := by
  simp [nextToken, hc.atMarker, gapAt_one hc]

theorem leads_blockEntry (h : Opens .blockSequence j is ts is' ts') (hc : EndsToken cs) :
    Leads (fresh ⟨'-' :: cs, l, j, o⟩ ts is) ⟨⟨cs, l, j + 1, o + 1⟩, .blockEntry :: ts', is', [none], true⟩ := by
  have hs : Starts ('-' :: cs) := by simp [Starts, isTokenChar, isBreakChar]
  refine leads_of_token (settle_fresh_of_within hs h.within) rfl ?_ (by simp [fresh])
  have hindent : indentTo ⟨⟨'-' :: cs, l, j, o⟩, ts, is, [none], true⟩ j ts.length .blockSequence = _ :=
    indentTo_of_opens h [] _
  rw [fresh, nextToken_dash hc, blockEntry, hindent]
  rfl

theorem leads_explicitKey (h : Opens .blockMapping j is ts is' ts') (hc : EndsToken cs) :
    Leads (fresh ⟨'?' :: cs, l, j, o⟩ ts is) ⟨⟨cs, l, j + 1, o + 1⟩, .key :: ts', is', [none], true⟩ := by
  have hs : Starts ('?' :: cs) := by simp [Starts, isTokenChar, isBreakChar]
  refine leads_of_token (settle_fresh_of_within hs h.within) rfl ?_ (by simp [fresh])
  have hindent : indentTo ⟨⟨'?' :: cs, l, j, o⟩, ts, is, [none], true⟩ j ts.length .blockMapping = _ :=
    indentTo_of_opens h [] _
  rw [fresh, nextToken_question hc, explicitKey, hindent]
  rfl

theorem leads_explicitValue (ts : List Token) (is : List Nat) (hc : EndsToken cs) :
    Leads (fresh ⟨':' :: cs, l, j, o⟩ ts (j :: is)) ⟨⟨cs, l, j + 1, o + 1⟩, .value :: ts, j :: is, [none], true⟩ := by
  have hs : Starts (':' :: cs) := by simp [Starts, isTokenChar, isBreakChar]
  have hopens : Opens .blockMapping j (j :: is) ts (j :: is) ts := .inside
  refine leads_of_token (settle_fresh_of_within hs hopens.within) rfl ?_ (by simp [fresh])
  rw [fresh, nextToken_colon hc]
  simp [value, inFlow, indentTo, indent?]
  rfl

/-- A node that turns out to be a key. -/
theorem leads_value (required : Bool) (tok : Token) (l : Nat) {j' o' : Nat} (h : Opens .blockMapping j is ts is' ts')
    (hc : EndsToken cs) (hj : j ≤ j') (ho : o' ≤ o + 1024) :
    Leads ⟨⟨':' :: cs, l, j', o'⟩, tok :: ts, is, [some ⟨required, ts.length, l, j, o⟩], false⟩
      ⟨⟨cs, l, j' + 1, o' + 1⟩, .value :: tok :: .key :: ts', is', [none], false⟩ := by
  have hs : Starts (':' :: cs) := by simp [Starts, isTokenChar, isBreakChar]
  have hlive : [some ⟨required, ts.length, l, j, o⟩].mapM (expire ⟨':' :: cs, l, j', o'⟩) =
      some [some ⟨required, ts.length, l, j, o⟩] := by
    simp [expire, Nat.not_lt.2 ho]
  have hwithin : Within is j' := fun i hi => Nat.le_trans (h.within i hi) hj
  have hindent : indentTo ⟨⟨':' :: cs, l, j', o'⟩, [tok, .key] ++ ts, is, [none], false⟩ j ts.length
      .blockMapping = _ :=
    indentTo_of_opens h [tok, .key] _
  refine leads_of_token (settle_blanks (n := 0) hs hwithin hlive) rfl ?_ (by simp)
  rw [nextToken_colon hc, value]
  simp [insertAt] at hindent ⊢
  rw [hindent]
  rfl

/-- The key that a node at the cursor can become. -/
def saved (c : Cursor) (ts : List Token) (is : List Nat) (b : Bool) : Option PossibleKey :=
  if b then some ⟨is.head? == some c.column, ts.length, c.line, c.column, c.offset⟩ else none

theorem saveKey_eq (c : Cursor) (ts : List Token) (is : List Nat) (b : Bool) :
    saveKey ⟨c, ts, is, [none], b⟩ = some ⟨c, ts, is, [saved c ts is b], b⟩ := by
  cases b <;> rfl

theorem stale_saved {c : Cursor} (ts : List Token) (is : List Nat) (b : Bool) (hi : ∀ i ∈ is.head?, i < c.column)
    (hl : c.line ≤ l) : Stale l [saved c ts is b] := by
  have hrequired : (is.head? == some c.column) = false := by
    cases is with
    | nil => rfl
    | cons i is => simpa using Nat.ne_of_lt (hi i rfl)
  cases b with
  | false => exact stale_none l
  | true =>
    refine ⟨_, rfl, fun k hk => ?_⟩
    obtain rfl := Option.some.inj hk
    exact ⟨hrequired, hl⟩

/-- An empty collection in two characters. -/
theorem leads_flow {y : Char} {t u : Token} (hx : isTokenChar x) (hy : isTokenChar y)
    (hopen : ∀ s : TokenStream, s.cursor.rest = x :: y :: cs → s.nextToken x = s.openFlow t)
    (hclose : ∀ s : TokenStream, s.cursor.rest = y :: cs → s.nextToken y = s.closeFlow u)
    (hi : Within is (j + n)) (hwidth : x.utf8Size = 1) : ∃ o',
    Leads ⟨⟨List.replicate n ' ' ++ x :: y :: cs, l, j, o⟩, ts, is, [none], b⟩
      ⟨⟨cs, l, j + n + 2, o'⟩, u :: t :: ts, is,
        [saved ⟨x :: y :: cs, l, j + n, o + n⟩ ts is b], false⟩ := by
  have hsx : Starts (x :: y :: cs) := fun z hz => Option.some.inj hz ▸ hx
  have hsy : Starts (y :: cs) := fun z hz => Option.some.inj hz ▸ hy
  have hlive : [none, saved ⟨x :: y :: cs, l, j + n, o + n⟩ ts is b].mapM
      (expire ⟨y :: cs, l, j + n + 1, o + n + x.utf8Size⟩) =
      some [none, saved ⟨x :: y :: cs, l, j + n, o + n⟩ ts is b] := by
    cases b <;> simp [saved, expire, hwidth]
  refine ⟨o + n + x.utf8Size + y.utf8Size, ?_⟩
  have hfirst : Leads ⟨⟨List.replicate n ' ' ++ x :: y :: cs, l, j, o⟩, ts, is, [none], b⟩
      ⟨⟨y :: cs, l, j + n + 1, o + n + x.utf8Size⟩, t :: ts, is,
        [none, saved ⟨x :: y :: cs, l, j + n, o + n⟩ ts is b], true⟩ := by
    refine leads_of_token (settle_blanks hsx hi rfl) rfl ?_ (by simp; omega)
    rw [hopen _ rfl, openFlow, saveKey_eq]
    rfl
  have hwithin : Within is (j + n + 1) := fun i h => Nat.le_succ_of_le (hi i h)
  refine hfirst.trans (leads_of_token (settle_blanks (n := 0) hsy hwithin hlive) rfl ?_ (by simp))
  rw [hclose _ rfl]
  rfl

theorem leads_brackets (cs : List Char) (l o : Nat) (ts : List Token) (b : Bool) (hi : Within is (j + n)) : ∃ o',
    Leads ⟨⟨List.replicate n ' ' ++ '[' :: ']' :: cs, l, j, o⟩, ts, is, [none], b⟩
      ⟨⟨cs, l, j + n + 2, o'⟩, .closeSequence :: .openSequence :: ts, is,
        [saved ⟨'[' :: ']' :: cs, l, j + n, o + n⟩ ts is b], false⟩ := by
  refine leads_flow (by decide) (by decide) (fun s hs => ?_) (fun s hs => ?_) hi rfl
  · obtain ⟨⟨_, l, j, o⟩, ts, is, keys, b⟩ := s
    obtain rfl := hs
    simp [nextToken, Cursor.atMarker, List.isPrefixOf]
  · obtain ⟨⟨_, l, j, o⟩, ts, is, keys, b⟩ := s
    obtain rfl := hs
    simp [nextToken, Cursor.atMarker, List.isPrefixOf]

theorem leads_braces (cs : List Char) (l o : Nat) (ts : List Token) (b : Bool) (hi : Within is (j + n)) : ∃ o',
    Leads ⟨⟨List.replicate n ' ' ++ '\x7b' :: '\x7d' :: cs, l, j, o⟩, ts, is, [none], b⟩
      ⟨⟨cs, l, j + n + 2, o'⟩, .closeMapping :: .openMapping :: ts, is,
        [saved ⟨'\x7b' :: '\x7d' :: cs, l, j + n, o + n⟩ ts is b], false⟩ := by
  refine leads_flow (by decide) (by decide) (fun s hs => ?_) (fun s hs => ?_) hi rfl
  · obtain ⟨⟨_, l, j, o⟩, ts, is, keys, b⟩ := s
    obtain rfl := hs
    simp [nextToken, Cursor.atMarker, List.isPrefixOf]
  · obtain ⟨⟨_, l, j, o⟩, ts, is, keys, b⟩ := s
    obtain rfl := hs
    simp [nextToken, Cursor.atMarker, List.isPrefixOf]

end

/-- The text is scanned to its end. -/
theorem ofText_eq {text : String} (hp : text.toList.all isPrintable)
    (h : Leads (fresh (.ofText text.toList) [] []) (fresh ⟨[], l, 0, o⟩ ts [0])) :
    ofText text = some (.blockEnd :: ts).reverse := by
  obtain ⟨n, hn, hrun⟩ := h
  obtain ⟨m, hm⟩ : ∃ m, text.toList.length + 2 = n + (m + 1) := by
    refine ⟨text.toList.length + 1 - n, ?_⟩
    simp [fresh, Cursor.ofText] at hn ⊢
    omega
  rw [ofText, if_pos hp, hm]
  have hs : Starts [] := by simp [Starts]
  have hwithin : Within [0] 0 := by simp [Within]
  refine (hrun (m + 1)).trans ?_
  rw [run_succ, settle_fresh_of_within hs hwithin]
  rfl

end TokenStream

end OperatorScaffold.Yaml

import Mathlib.Data.List.Chain
import Mathlib.Data.List.TakeWhile
import OperatorScaffold.Marker.Document
/-!
Which lines are marker lines. They are written in one way up to blanks around their parts, so a line
with two neighbouring characters that no marker line has is none, whatever else is in it.
-/

namespace OperatorScaffold.Marker

open Text Naming

variable {word : String} {cs rest pre mid post comment l m more bs : List Char} {c : Char} {d : Delimiter}

theorem dropText?_eq_some_iff : dropText? word cs = some rest ↔ cs = word.toList ++ rest := by
  unfold dropText?
  rw [Option.ite_none_right_eq_some]
  constructor
  · rintro ⟨hp, hr⟩
    obtain ⟨t, rfl⟩ := List.isPrefixOf_iff_prefix.1 hp
    rw [List.drop_left] at hr
    rw [Option.some.inj hr]
  · rintro rfl
    exact ⟨List.isPrefixOf_iff_prefix.2 (List.prefix_append _ _), by rw [List.drop_left]⟩

theorem eq_of_oneOf? {α : Type} (word : α → String) {choices : List α} {a : α}
    (h : oneOf? word choices cs = some (a, rest)) : cs = (word a).toList ++ rest := by
  obtain ⟨b, -, hb⟩ := List.exists_of_findSome?_eq_some h
  obtain ⟨r, hr, he⟩ := Option.map_eq_some_iff.1 hb
  obtain ⟨rfl, rfl⟩ := Prod.mk.inj he
  exact dropText?_eq_some_iff.1 hr

namespace Delimiter

/-- What a marker line says in front of the name. -/
def head (scope : Scope) (side : Side) : List Char :=
  "+opforge:".toList ++ ((scope.name ++ ":").toList ++ (side.word ++ ":").toList)

/-- The parts of a marker line. -/
structure Says (d : Delimiter) (cs pre comment mid post : List Char) : Prop where
  eq : cs = pre ++ (comment ++ (mid ++ (head d.scope d.side ++ (d.name.toList ++ post))))
  comment : comment = ['/', '/'] ∨ comment = ['#']
  pre : ∀ c ∈ pre, isBlank c
  mid : ∀ c ∈ mid, isBlank c
  post : ∀ c ∈ post, isBlank c
  name : isName d.name

end Delimiter

open Delimiter

theorem isNameChar_of_isName {s : String} (h : isName s) : ∀ c ∈ s.toList, isNameChar c :=
  List.all_eq_true.1 (Bool.and_eq_true_iff.1 h).2

theorem not_isBlank_of_isNameChar (h : isNameChar c) : ¬isBlank c := by
  have hd (a b : Char) (hab : (a ≤ c && c ≤ b) = true) : a.toNat ≤ c.toNat ∧ c.toNat ≤ b.toNat := by
    simpa [Char.le_def, UInt32.le_iff_toNat_le] using hab
  simp only [isNameChar, isAlphanumeric, isDigit, isUpper, isLower, Bool.or_eq_true, beq_iff_eq] at h
  obtain (((((h | h) | h) | rfl) | rfl) | rfl) := h
  · have := hd _ _ h
    simp [isBlank, Char.reduceToNat] at this ⊢
    omega
  · have := hd _ _ h
    simp [isBlank, Char.reduceToNat] at this ⊢
    omega
  · have := hd _ _ h
    simp [isBlank, Char.reduceToNat] at this ⊢
    omega
  all_goals decide

theorem says_of_delimiter? (h : delimiter? (.ofList cs) = some d) :
    ∃ pre comment mid post, d.Says cs pre comment mid post := by
  unfold delimiter? at h
  simp only [Option.bind_eq_bind, Option.bind_eq_some_iff, String.toList_ofList] at h
  obtain ⟨xs, hcomment, ys, hword, ⟨scope, zs⟩, hscope, ⟨side, us⟩, hside, h⟩ := h
  obtain ⟨hn, h⟩ := Option.ite_none_right_eq_some.1 h
  obtain rfl := Option.some.inj h
  dsimp only at hn hscope hside
  obtain ⟨hname, hpost⟩ := Bool.and_eq_true_iff.1 hn
  have hcomment : ∃ comment, (comment = ['/', '/'] ∨ comment = ['#']) ∧
      cs.dropWhile isBlank = comment ++ xs := by
    rw [Option.orElse_eq_orElse, Option.orElse_eq_or] at hcomment
    obtain h | ⟨-, h⟩ := Option.or_eq_some_iff.1 hcomment
    · exact ⟨_, .inl rfl, dropText?_eq_some_iff.1 h⟩
    · exact ⟨_, .inr rfl, dropText?_eq_some_iff.1 h⟩
  obtain ⟨comment, hc, hxs⟩ := hcomment
  refine ⟨cs.takeWhile isBlank, comment, xs.takeWhile isBlank, us.dropWhile isNameChar, ?_, hc,
    fun _ => List.mem_takeWhile_imp, fun _ => List.mem_takeWhile_imp, ?_, ?_⟩
  · have hus : zs = (side.word ++ ":").toList ++ us := eq_of_oneOf? (fun s : Side => s.word ++ ":") hside
    have hzs : ys = (scope.name ++ ":").toList ++ zs := eq_of_oneOf? (fun s : Scope => s.name ++ ":") hscope
    have hys : xs.dropWhile isBlank = "+opforge:".toList ++ ys := dropText?_eq_some_iff.1 hword
    calc cs = cs.takeWhile isBlank ++ cs.dropWhile isBlank := List.takeWhile_append_dropWhile.symm
      _ = cs.takeWhile isBlank ++ (comment ++ (xs.takeWhile isBlank ++ xs.dropWhile isBlank)) := by
        rw [hxs, List.takeWhile_append_dropWhile]
      _ = _ := by
        unfold head
        simp only [hys, hzs, hus, String.toList_ofList, List.takeWhile_append_dropWhile, List.append_assoc]
  · exact List.all_eq_true.1 hpost
  · exact hname

theorem not_isBlank_of_mem_head (scope : Scope) (side : Side) : ∀ c ∈ head scope side, ¬isBlank c := by
  have hall : (head scope side).all fun c => !isBlank c := by cases scope <;> cases side <;> decide
  simpa using hall

theorem not_isBlank_of_mem_comment (h : comment = ['/', '/'] ∨ comment = ['#']) :
    ∀ c ∈ comment, ¬isBlank c := by
  have hall : comment.all fun c => !isBlank c := by obtain rfl | rfl := h <;> decide
  simpa using hall

theorem dropWhile_blanks {p : Char → Bool} (hbs : ∀ c ∈ bs, p c) (hcs : ∀ c ∈ cs.head?, ¬p c) :
    (bs ++ cs).dropWhile p = cs := by
  rw [List.dropWhile_append_of_pos hbs]
  cases cs with
  | nil => rfl
  | cons c cs => exact List.dropWhile_cons_of_neg (hcs c rfl)

theorem takeWhile_name {p : Char → Bool} (hbs : ∀ c ∈ bs, p c) (hcs : ∀ c ∈ cs.head?, ¬p c) :
    (bs ++ cs).takeWhile p = bs := by
  rw [List.takeWhile_append_of_pos hbs]
  cases cs with
  | nil => exact List.append_nil bs
  | cons c cs => rw [List.takeWhile_cons_of_neg (hcs c rfl), List.append_nil]

theorem oneOf?_scope (scope : Scope) (rest : List Char) :
    oneOf? (fun s : Scope => s.name ++ ":") [.static, .dynamic] ((scope.name ++ ":").toList ++ rest) =
      some (scope, rest) := by
  cases scope <;> simp [oneOf?, dropText?, Scope.name]

theorem oneOf?_side (side : Side) (rest : List Char) :
    oneOf? (fun s : Side => s.word ++ ":") [.opening, .closing] ((side.word ++ ":").toList ++ rest) =
      some (side, rest) := by
  cases side <;> simp [oneOf?, dropText?, Side.word]

namespace Delimiter

theorem Says.delimiter?_eq (h : d.Says cs pre comment mid post) : delimiter? (.ofList cs) = some d := by
  have hpost : ∀ c ∈ post.head?, ¬isNameChar c := fun c hc hn =>
    not_isBlank_of_isNameChar hn (h.post c (List.mem_of_mem_head? hc))
  unfold delimiter?
  simp only [Option.bind_eq_bind, Option.bind_eq_some_iff, String.toList_ofList]
  refine ⟨mid ++ (head d.scope d.side ++ (d.name.toList ++ post)), ?_,
    (d.scope.name ++ ":").toList ++ ((d.side.word ++ ":").toList ++ (d.name.toList ++ post)), ?_,
    (d.scope, (d.side.word ++ ":").toList ++ (d.name.toList ++ post)), ?_,
    (d.side, d.name.toList ++ post), ?_, ?_⟩
  · rw [h.eq, dropWhile_blanks h.pre]
    · obtain rfl | rfl := h.comment <;> rfl
    · obtain rfl | rfl := h.comment <;> simp <;> decide
  · rw [dropWhile_blanks h.mid]
    · refine dropText?_eq_some_iff.2 ?_
      unfold head
      simp only [List.append_assoc]
    · intro c hc
      unfold head at hc
      obtain rfl := Option.some.inj hc
      decide
  · exact oneOf?_scope _ _
  · exact oneOf?_side _ _
  · have hname := isNameChar_of_isName h.name
    dsimp only
    rw [takeWhile_name hname hpost, dropWhile_blanks hname hpost, String.ofList_toList, h.name,
      List.all_eq_true.2 h.post]
    rfl

end Delimiter

/-- A line that says nothing. -/
def Silent (cs : List Char) : Prop := delimiter? (.ofList cs) = none

instance : DecidablePred Silent := fun cs => inferInstanceAs (Decidable (delimiter? (.ofList cs) = none))

theorem silent_iff : Silent cs ↔ ∀ d pre comment mid post, ¬Delimiter.Says d cs pre comment mid post := by
  constructor
  · intro h d pre comment mid post hs
    cases h.symm.trans hs.delimiter?_eq
  · intro h
    refine Option.eq_none_iff_forall_ne_some.2 fun d hd => ?_
    obtain ⟨pre, comment, mid, post, hs⟩ := says_of_delimiter? hd
    exact h d pre comment mid post hs

/-- The second has some blanks more than the first. -/
inductive Spaced : List Char → List Char → Prop
  | nil : Spaced [] []
  | keep {l m : List Char} (c : Char) : Spaced l m → Spaced (c :: l) (c :: m)
  | blank {l m : List Char} {c : Char} : isBlank c → Spaced l m → Spaced l (c :: m)

namespace Spaced

theorem refl (l : List Char) : Spaced l l := by
  induction l with
  | nil => exact .nil
  | cons c l ih => exact ih.keep c

theorem of_blanks (h : ∀ c ∈ bs, isBlank c) : Spaced [] bs := by
  induction bs with
  | nil => exact .nil
  | cons b bs ih =>
    have ⟨hb, hbs⟩ := List.forall_mem_cons.1 h
    exact (ih hbs).blank hb

theorem append {l' m' : List Char} (h : Spaced l m) (h' : Spaced l' m') : Spaced (l ++ l') (m ++ m') := by
  induction h with
  | nil => exact h'
  | keep c _ ih => exact ih.keep c
  | blank hc _ ih => exact ih.blank hc

theorem parts {x y : List Char} (h : Spaced l (x ++ y)) :
    ∃ l₁ l₂, l = l₁ ++ l₂ ∧ Spaced l₁ x ∧ Spaced l₂ y := by
  induction x generalizing l with
  | nil => exact ⟨[], l, rfl, .nil, h⟩
  | cons c x ih =>
    cases h with
    | keep _ h =>
      obtain ⟨l₁, l₂, rfl, h₁, h₂⟩ := ih h
      exact ⟨c :: l₁, l₂, rfl, h₁.keep c, h₂⟩
    | blank hc h =>
      obtain ⟨l₁, l₂, rfl, h₁, h₂⟩ := ih h
      exact ⟨l₁, l₂, rfl, h₁.blank hc, h₂⟩

theorem blanks (h : Spaced l m) (hm : ∀ c ∈ m, isBlank c) : ∀ c ∈ l, isBlank c := by
  induction h with
  | nil => exact hm
  | keep c _ ih =>
    have ⟨hc, hm⟩ := List.forall_mem_cons.1 hm
    exact List.forall_mem_cons.2 ⟨hc, ih hm⟩
  | blank _ _ ih => exact ih (List.forall_mem_cons.1 hm).2

theorem eq (h : Spaced l m) (hm : ∀ c ∈ m, ¬isBlank c) : l = m := by
  induction h with
  | nil => rfl
  | keep c _ ih => rw [ih (List.forall_mem_cons.1 hm).2]
  | blank hc _ _ => exact absurd hc (List.forall_mem_cons.1 hm).1

/-- Blanks more make no marker line. -/
theorem silent (h : Spaced l m) (hl : Silent l) : Silent m := by
  rw [silent_iff] at hl ⊢
  intro d pre comment mid post hs
  obtain ⟨pre', _, rfl, hpre, h⟩ := (hs.eq ▸ h).parts
  obtain ⟨comment', _, rfl, hcomment, h⟩ := h.parts
  obtain ⟨mid', _, rfl, hmid, h⟩ := h.parts
  obtain ⟨head', _, rfl, hhead, h⟩ := h.parts
  obtain ⟨name', post', rfl, hname, hpost⟩ := h.parts
  obtain rfl := hcomment.eq (not_isBlank_of_mem_comment hs.comment)
  obtain rfl := hhead.eq (not_isBlank_of_mem_head _ _)
  obtain rfl := hname.eq fun c hc => not_isBlank_of_isNameChar (isNameChar_of_isName hs.name c hc)
  exact hl d pre' comment' mid' post'
    ⟨rfl, hs.comment, hpre.blanks hs.pre, hmid.blanks hs.mid, hpost.blanks hs.post, hs.name⟩

end Spaced

theorem silent_blanks_append (hb : ∀ c ∈ bs, isBlank c) : Silent (bs ++ l) ↔ Silent l := by
  refine ⟨fun h => ?_, ((Spaced.of_blanks hb).append (.refl l)).silent⟩
  rw [silent_iff] at h ⊢
  intro d pre comment mid post hs
  refine h d (bs ++ pre) comment mid post { hs with eq := ?_, pre := List.forall_mem_append.2 ⟨hb, hs.pre⟩ }
  rw [hs.eq, List.append_assoc]

theorem silent_append_blanks (hb : ∀ c ∈ bs, isBlank c) : Silent (l ++ bs) ↔ Silent l := by
  refine ⟨fun h => ?_, fun h => ?_⟩
  · rw [silent_iff] at h ⊢
    intro d pre comment mid post hs
    refine h d pre comment mid (post ++ bs)
      { hs with eq := ?_, post := List.forall_mem_append.2 ⟨hs.post, hb⟩ }
    rw [hs.eq]
    simp only [List.append_assoc]
  · have := (Spaced.refl l).append (.of_blanks hb)
    exact (List.append_nil l ▸ this).silent h

theorem silent_nil : Silent [] := by
  decide

/-- Whether the two stand side by side in a marker line, where a blank can stand at both ends. -/
def joins (c d : Char) : Bool :=
  if isBlank c then isBlank d || d == '/' || d == '#' || d == '+'
  else if c == '/' then isBlank d || d == '/' || d == '+'
  else if c == '#' then isBlank d || d == '+'
  else if c == '+' then d == 'o'
  else if c == ':' then isAlphanumeric d
  else isNameChar c && (isBlank d || d == ':' || isNameChar d)

/-- Neighbours that a marker line can have. -/
abbrev Joined (cs : List Char) : Prop := cs.IsChain (joins · ·)

theorem joins_blank {b : Char} (hb : isBlank b) :
    joins b c ↔ isBlank c ∨ c = '/' ∨ c = '#' ∨ c = '+' := by
  simp [joins, hb, or_assoc]

theorem joins_name {n : Char} (hn : isNameChar n) (hc : isBlank c ∨ c = ':' ∨ isNameChar c) : joins n c := by
  have hb := not_isBlank_of_isNameChar hn
  have hne (x : Char) (hx : isNameChar x = false) : n ≠ x := fun e => by
    rw [e, hx] at hn
    cases hn
  simp [joins, hb, hn, hne '/' rfl, hne '#' rfl, hne '+' rfl, hne ':' rfl, or_assoc, hc]

theorem joined_blanks_append (hb : ∀ c ∈ bs, isBlank c) (h : Joined l)
    (hl : ∀ c ∈ l.head?, isBlank c ∨ c = '/' ∨ c = '#' ∨ c = '+') : Joined (bs ++ l) := by
  induction bs with
  | nil => exact h
  | cons b bs ih =>
    have ⟨hb, hbs⟩ := List.forall_mem_cons.1 hb
    refine (ih hbs).cons fun c hc => (joins_blank hb).2 ?_
    cases bs with
    | nil => exact hl c hc
    | cons b' bs => exact .inl (Option.some.inj hc ▸ (List.forall_mem_cons.1 hbs).1)

theorem joined_name_append (hn : ∀ c ∈ m, isNameChar c) (h : Joined l)
    (hl : ∀ c ∈ l.head?, isBlank c ∨ c = ':') : Joined (m ++ l) := by
  induction m with
  | nil => exact h
  | cons n m ih =>
    have ⟨hn, hm⟩ := List.forall_mem_cons.1 hn
    refine (ih hm).cons fun c hc => joins_name hn ?_
    cases m with
    | nil => exact (hl c hc).imp_right .inl
    | cons n' m => exact .inr (.inr (Option.some.inj hc ▸ (List.forall_mem_cons.1 hm).1))

theorem joined_head_append {scope : Scope} {side : Side} (h : Joined l)
    (hl : ∀ c ∈ l.head?, isAlphanumeric c) : Joined (head scope side ++ l) := by
  have hlast : (head scope side).getLast? = some ':' := by cases scope <;> cases side <;> decide
  refine List.IsChain.append (by cases scope <;> cases side <;> decide) h fun x hx c hc => ?_
  obtain rfl := Option.some.inj (hlast.symm.trans hx)
  exact hl c hc

theorem joins_slash : joins '/' c ↔ isBlank c ∨ c = '/' ∨ c = '+' := by
  simp [joins, show isBlank '/' = false from rfl, or_assoc]

theorem joins_hash : joins '#' c ↔ isBlank c ∨ c = '+' := by
  simp [joins, show isBlank '#' = false from rfl]

theorem joined_comment_append (hcomment : comment = ['/', '/'] ∨ comment = ['#']) (h : Joined l)
    (hl : ∀ c ∈ l.head?, isBlank c ∨ c = '+') : Joined (comment ++ l) := by
  obtain rfl | rfl := hcomment
  · refine List.IsChain.append (by decide) h fun x hx c hc => ?_
    obtain rfl := Option.some.inj hx
    exact joins_slash.2 ((hl c hc).imp_right .inr)
  · refine List.IsChain.append (by decide) h fun x hx c hc => ?_
    obtain rfl := Option.some.inj hx
    exact joins_hash.2 (hl c hc)

/-- Neighbours that are in no marker line show that a line is none. -/
theorem silent_of_not_joined (h : ¬Joined (' ' :: (cs ++ [' ']))) : Silent cs := by
  refine silent_iff.2 fun d pre comment mid post hs => h ?_
  have hblank : ∀ c ∈ post ++ [' '], isBlank c := 
    List.forall_mem_append.2 ⟨hs.post, List.forall_mem_singleton.2 (by decide)⟩
  have hpost : Joined (post ++ [' ']) := by
    simpa using joined_blanks_append hblank (l := []) .nil nofun
  have hname : Joined (d.name.toList ++ (post ++ [' '])) := by
    refine joined_name_append (isNameChar_of_isName hs.name) hpost fun c hc => .inl ?_
    exact hblank c (List.mem_of_mem_head? hc)
  have hhead : Joined (head d.scope d.side ++ (d.name.toList ++ (post ++ [' ']))) := by
    refine joined_head_append hname fun c hc => ?_
    obtain ⟨n, hn, halpha⟩ := (Option.any_eq_true _ _).1 (Bool.and_eq_true_iff.1 hs.name).1
    rw [List.head?_append, hn] at hc
    exact Option.some.inj hc ▸ halpha
  have hplus : (head d.scope d.side).head? = some '+' := rfl
  have hmid : Joined (mid ++ (head d.scope d.side ++ (d.name.toList ++ (post ++ [' '])))) := by
    refine joined_blanks_append hs.mid hhead fun c hc => .inr (.inr (.inr ?_))
    rw [List.head?_append, hplus] at hc
    exact (Option.some.inj hc).symm
  have hcomment := joined_comment_append hs.comment hmid fun c hc => by
    cases mid with
    | nil => exact .inr (Option.some.inj hc).symm
    | cons b mid => exact .inl (Option.some.inj hc ▸ (List.forall_mem_cons.1 hs.mid).1)
  have hblank' : ∀ c ∈ ' ' :: pre, isBlank c := List.forall_mem_cons.2 ⟨by decide, hs.pre⟩
  have hpre := joined_blanks_append hblank' hcomment fun c hc => by
    obtain rfl | rfl := hs.comment
    · exact .inr (.inl (Option.some.inj hc).symm)
    · exact .inr (.inr (.inl (Option.some.inj hc).symm))
  rw [hs.eq]
  simpa only [List.cons_append, List.append_assoc] using hpre

/-- A start of a line that makes it no marker line, however it goes on. -/
def Barred (cs : List Char) : Prop := ¬Joined (' ' :: cs)

instance : DecidablePred Barred := fun cs => inferInstanceAs (Decidable ¬Joined (' ' :: cs))

theorem Barred.append (h : Barred cs) (more : List Char) : Barred (cs ++ more) := by
  intro hj
  rw [← List.cons_append] at hj
  exact h hj.left_of_append

theorem Barred.silent (h : Barred cs) : Silent cs :=
  silent_of_not_joined (h.append [' '])

theorem barred_append_of_not_joined (h : ¬Joined m) : Barred (l ++ m) := by
  intro hj
  rw [← List.cons_append] at hj
  exact h hj.right_of_append

/-- A name does not start with a dot, so that it is one without the dot as well. -/
theorem Silent.append_dot (h : Silent l) : Silent (l ++ ['.']) := by
  rw [silent_iff] at h ⊢
  intro d pre comment mid post hs
  obtain ⟨n, c, hn⟩ : ∃ n c, d.name.toList ++ post = n ++ [c] := by
    refine ⟨_, _, (List.dropLast_append_getLast (l := d.name.toList ++ post) fun hnil => ?_).symm⟩
    have hname := hs.name
    rw [isName, (List.append_eq_nil_iff.1 hnil).1] at hname
    cases hname
  have he := hs.eq
  simp only [hn, ← List.append_assoc] at he
  obtain ⟨rfl, hc⟩ := List.append_inj' he rfl
  obtain rfl := List.singleton_inj.1 hc
  cases post using List.reverseRecOn with
  | append_singleton post b _ =>
    obtain ⟨-, hb⟩ := List.append_inj' ((List.append_assoc _ _ _).trans hn) rfl
    exact absurd (hs.post b (by simp)) (List.singleton_inj.1 hb ▸ by decide)
  | nil =>
    rw [List.append_nil] at hn
    have hname := hs.name
    rw [isName, hn, List.all_append, Bool.and_eq_true_iff, Bool.and_eq_true_iff] at hname
    refine h ⟨d.scope, d.side, .ofList n⟩ pre comment mid []
      ⟨by simp [List.append_assoc], hs.comment, hs.pre, hs.mid, nofun, ?_⟩
    cases n with
    | nil => cases hname.1
    | cons a n =>
      rw [isName, String.toList_ofList, hname.2.1, Bool.and_true]
      exact hname.1

end OperatorScaffold.Marker

import OperatorScaffold.Proofs.Files.Walk
/-!
Trees that grow: directories and files are added and files are written anew, but nothing is taken
away and no link is made. A walk leads to the same place in a tree that has grown.
-/

namespace OperatorScaffold.FileTree

/-- What may become of an entry without any walk noticing. -/
inductive Becomes : Entry → Entry → Prop
  | same {e : Entry} : Becomes e e
  | rewritten {c c' : Content} {m m' : Nat} : Becomes (.file c m) (.file c' m')

variable {t t' : FileTree} {links : Nat} {here q : Place} {ns : List String} {e : Entry}

theorem Becomes.trans {a b c : Entry} (hab : Becomes a b) (hbc : Becomes b c) : Becomes a c := by
  cases hab with
  | same => exact hbc
  | rewritten =>
    cases hbc with
    | same => exact .rewritten
    | rewritten => exact .rewritten

theorem Becomes.of_directory (h : Becomes .directory e) : e = .directory := by
  cases h
  rfl

/-- New directories and files in a tree, and other contents of files that were there. -/
structure Grows (t t' : FileTree) : Prop where
  kept : ∀ q e, t.at? q = some e → ∃ e', t'.at? q = some e' ∧ Becomes e e'
  fresh : ∀ q target, t'.at? q = some (.link target) → t.at? q = some (.link target)

theorem Grows.refl (t : FileTree) : t.Grows t := ⟨fun _ e h => ⟨e, h, .same⟩, fun _ _ h => h⟩

theorem Grows.trans {t₁ t₂ t₃ : FileTree} (h : t₁.Grows t₂) (h' : t₂.Grows t₃) : t₁.Grows t₃ where
  kept q e he := by
    obtain ⟨e₂, he₂, hb⟩ := h.kept q e he
    obtain ⟨e₃, he₃, hb'⟩ := h'.kept q e₂ he₂
    exact ⟨e₃, he₃, hb.trans hb'⟩
  fresh q target hq := h.fresh q target (h'.fresh q target hq)

theorem Grows.directory (h : t.Grows t') (hq : t.at? q = some .directory) :
    t'.at? q = some .directory := by
  obtain ⟨e, he, hb⟩ := h.kept q _ hq
  rwa [hb.of_directory] at he

theorem Grows.link {target : Path} (h : t.Grows t') (hq : t.at? q = some (.link target)) :
    t'.at? q = some (.link target) := by
  obtain ⟨e, he, hb⟩ := h.kept q _ hq
  cases hb
  exact he

theorem Walks.mono (hg : t.Grows t') (h : Walks t links here ns q e) :
    ∃ e', Becomes e e' ∧ Walks t' links here ns q e' := by
  induction h with
  | stop => exact ⟨_, .same, .stop⟩
  | stay _ ih =>
    obtain ⟨e', hb, h⟩ := ih
    exact ⟨e', hb, .stay h⟩
  | up _ ih =>
    obtain ⟨e', hb, h⟩ := ih
    exact ⟨e', hb, .up h⟩
  | enter hn hat _ ih =>
    obtain ⟨e', hb, h⟩ := ih
    exact ⟨e', hb, .enter hn (hg.directory hat) h⟩
  | file hn hat =>
    obtain ⟨e', hat', hb⟩ := hg.kept _ _ hat
    cases hb with
    | same => exact ⟨_, .same, .file hn hat'⟩
    | rewritten => exact ⟨_, .rewritten, .file hn hat'⟩
  | link hn hat _ ih =>
    obtain ⟨e', hb, h⟩ := ih
    exact ⟨e', hb, .link hn (hg.link hat) h⟩

theorem lookup_putEntry {p : Place} {es : List (Place × Entry)} :
    (putEntry p e es).lookup q = if q = p then some e else es.lookup q := by
  induction es with
  | nil =>
    by_cases h : q = p
    · simp [putEntry, h]
    · simp [putEntry, List.lookup_cons, beq_false_of_ne h, h]
  | cons x es ih =>
    obtain ⟨r, x⟩ := x
    by_cases hr : r = p
    · subst hr
      by_cases h : q = r
      · simp [putEntry, h]
      · simp [putEntry, List.lookup_cons, beq_false_of_ne h, h]
    · by_cases h : q = r
      · simp [putEntry, hr, h]
      · simp [putEntry, List.lookup_cons, hr, beq_false_of_ne h, ih]

theorem at?_put {p : Place} (hp : p ≠ []) : (t.put p e).at? q = if q = p then some e else t.at? q := by
  unfold at? put
  by_cases hq : q = []
  · simp [hq, Ne.symm hp]
  · simp [hq, lookup_putEntry]

@[simp] theorem at?_put_self {p : Place} (hp : p ≠ []) : (t.put p e).at? p = some e := by
  simp [at?_put hp]

theorem at?_put_of_ne {p : Place} (hp : p ≠ []) (h : q ≠ p) : (t.put p e).at? q = t.at? q := by
  simp [at?_put hp, h]

theorem ne_nil_of_at?_eq_none {p : Place} (h : t.at? p = none) : p ≠ [] := by
  rintro rfl
  cases h

theorem grows_put {p : Place} (hp : p ≠ []) (hb : ∀ x, t.at? p = some x → Becomes x e)
    (hl : ∀ target, e ≠ .link target) : t.Grows (t.put p e) where
  kept r x hr := by
    by_cases h : r = p
    · subst h
      exact ⟨e, at?_put_self hp, hb x hr⟩
    · exact ⟨x, by rwa [at?_put_of_ne hp h], .same⟩
  fresh r target hr := by
    by_cases h : r = p
    · subst h
      rw [at?_put_self hp] at hr
      exact absurd (Option.some.inj hr) (hl target)
    · rwa [at?_put_of_ne hp h] at hr

end OperatorScaffold.FileTree

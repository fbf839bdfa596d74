import OperatorScaffold.Proofs.Files.Writing
/-!
Where paths lead once what is missing on their way has been made, and destinations that can be
written one by one without getting in each other's way.
-/

namespace OperatorScaffold

open FileTree
open scoped List

namespace FileTree

variable {t t₁ t₂ : FileTree} {links : Nat} {here q q₁ q₂ root l : Place} {ns : List String}
  {n : String} {e e₁ e₂ : Entry}

theorem Grows.directory_of_directory (h₁ : t.Grows t₁) (h₂ : t.Grows t₂)
    (hd : t₁.at? q = some .directory) {target : Path} : t₂.at? q ≠ some (.link target) := by
  intro hl
  have := h₁.link (h₂.fresh q target hl)
  simp [hd] at this

theorem Grows.file_of_file (h₁ : t.Grows t₁) (h₂ : t.Grows t₂) {c : Content} {m : Nat}
    (hf : t₁.at? q = some (.file c m)) {target : Path} : t₂.at? q ≠ some (.link target) := by
  intro hl
  have := h₁.link (h₂.fresh q target hl)
  simp [hf] at this

/-- However a tree grows, a walk leads to one place. -/
theorem Walks.unique (h₁ : t.Grows t₁) (h₂ : t.Grows t₂) (hw₁ : Walks t₁ links here ns q₁ e₁)
    (hw₂ : Walks t₂ links here ns q₂ e₂) : q₁ = q₂ := by
  -- Both trees grew from one, so what is a directory or a file in one is no link in the other.
  induction hw₁ with
  | stop =>
    cases hw₂
    rfl
  | stay _ ih => exact ih hw₂.of_here
  | up _ ih => exact ih hw₂.of_up
  | enter hn hat h ih =>
    cases hw₂ with
    | stay => exact absurd hn not_isName_here
    | up => exact absurd hn not_isName_up
    | enter _ _ h => exact ih h
    | file =>
      cases h
      rfl
    | link _ hl => exact absurd hl (h₁.directory_of_directory h₂ hat)
  | file hn hat =>
    cases hw₂ with
    | stay => exact absurd hn not_isName_here
    | up => exact absurd hn not_isName_up
    | enter _ _ h =>
      cases h
      rfl
    | file => rfl
    | link _ hl => exact absurd hl (h₁.file_of_file h₂ hat)
  | link hn hat _ ih =>
    cases hw₂ with
    | stay => exact absurd hn not_isName_here
    | up => exact absurd hn not_isName_up
    | enter _ hd => exact absurd hat (h₂.directory_of_directory h₁ hd)
    | file _ hf => exact absurd hat (h₂.file_of_file h₁ hf)
    | link _ hl h =>
      have ht := h₂.link (h₁.fresh _ _ hat)
      rw [hl] at ht
      cases ht
      exact ih h

/-- Where names lead from a place without links, as long as they stay below it. -/
def land? : Place → List String → Option Place
  | here, [] => some here
  | here, n :: ns =>
    if n = "." then land? here ns
    else if n = ".." then if here = [] then none else land? here.dropLast ns
    else land? (here ++ [n]) ns

theorem land?_append_here (here : Place) (ns : List String) :
    land? here (ns ++ ["."]) = land? here ns := by
  induction ns generalizing here with
  | nil => simp [land?]
  | cons n ns ih => simp [land?, ih]

theorem Walks.land {start : Place} (hl : ∀ below target, t.at? (root ++ below) ≠ some (.link target))
    (h : Walks t links start ns q e) (hr : root ++ here = start) (hland : land? here ns = some l) :
    q = root ++ l := by
  induction h generalizing here with
  | stop =>
    obtain rfl := Option.some.inj hland
    exact hr.symm
  | stay _ ih => exact ih hr (by simpa [land?] using hland)
  | up _ ih =>
    by_cases hne : here = []
    · simp [land?, hne] at hland
    · refine ih ?_ (by simpa [land?, hne] using hland)
      rw [← hr, List.dropLast_append_of_ne_nil hne]
  | enter hn _ _ ih =>
    rw [land?, if_neg hn.ne_here, if_neg hn.ne_up] at hland
    exact ih (by rw [← hr, List.append_assoc]) hland
  | file hn =>
    rw [land?, if_neg hn.ne_here, if_neg hn.ne_up] at hland
    obtain rfl := Option.some.inj hland
    rw [← hr, List.append_assoc]
  | link _ hat =>
    rw [← hr, List.append_assoc] at hat
    exact absurd hat (hl _ _)

theorem Walks.last (h : Walks t links here [n] q e) (hn : n ≠ "." ∧ n ≠ "..")
    (hl : ∀ target, t.at? (here ++ [n]) ≠ some (.link target)) : q = here ++ [n] ∧ t.at? q = some e := by
  cases h with
  | stay => exact absurd rfl hn.1
  | up => exact absurd rfl hn.2
  | enter _ hat h =>
    cases h
    exact ⟨rfl, hat⟩
  | file _ hat => exact ⟨rfl, hat⟩
  | link _ hat => exact absurd hat (hl _)

theorem Walks.length_le (hl : ∀ q target, t.at? q ≠ some (.link target))
    (h : Walks t links here ns q e) : q.length ≤ here.length + ns.length := by
  induction h with
  | stop => simp
  | stay _ ih =>
    rw [List.length_cons]
    omega
  | up _ ih =>
    rw [List.length_dropLast] at ih
    rw [List.length_cons]
    omega
  | enter _ _ _ ih =>
    rw [List.length_append, List.length_singleton] at ih
    rw [List.length_cons]
    omega
  | file => simp
  | link _ hat => exact absurd hat (hl _ _)

end FileTree

namespace Workspace

variable {s s' : Workspace} {p a root : Path} {q : Place} {e : Entry}

/-- Where a path leads once what is missing on its way has been made. -/
def LeadsTo (s : Workspace) (p : Path) (q : Place) : Prop :=
  ∃ s' e, s.Grows s' ∧ s'.locate p = .ok (q, e)

theorem LeadsTo.unique {q' : Place} (h : s.LeadsTo p q) (h' : s.LeadsTo p q') : q = q' := by
  obtain ⟨s₁, e₁, hg₁, h₁⟩ := h
  obtain ⟨s₂, e₂, hg₂, h₂⟩ := h'
  have hw₁ := (locate_eq_ok_iff.1 h₁).2
  have hw₂ := (locate_eq_ok_iff.1 h₂).2
  rw [hg₁.1] at hw₁
  rw [hg₂.1] at hw₂
  exact hw₁.unique hg₁.2 hg₂.2 hw₂

theorem LeadsTo.of_grows (h : s'.LeadsTo p q) (hg : s.Grows s') : s.LeadsTo p q := by
  obtain ⟨t, e, hgt, hl⟩ := h
  exact ⟨t, e, hg.trans hgt, hl⟩

theorem leadsTo_of_locate (h : s.locate p = .ok (q, e)) : s.LeadsTo p q := ⟨s, e, .refl s, h⟩

/-- The directory that a path names, also where the path is empty. -/
def inside (root : Path) : Path := root.join ⟨"."⟩

/-- No symbolic link lies where a path leads or below. -/
def NoLinksBelow (s : Workspace) (root : Path) : Prop :=
  ∀ r, s.LeadsTo (inside root) r → ∀ below target, s.files.at? (r ++ below) ≠ some (.link target)

theorem NoLinksBelow.of_grows (hl : s.NoLinksBelow root) (hg : s.Grows s') : s'.NoLinksBelow root :=
  fun r hr below target hat => hl r (hr.of_grows hg) below target (hg.2.fresh _ _ hat)

theorem at?_ne_link_of_entries (h : ∀ x ∈ s.files.entries, ∀ target, x.2 ≠ .link target) (q : Place)
    (target : Path) : s.files.at? q ≠ some (.link target) := by
  intro hat
  unfold FileTree.at? at hat
  split at hat
  next => cases hat
  next =>
    obtain ⟨before, after, e, -⟩ := List.lookup_eq_some_iff.1 hat
    exact h (q, .link target) (e ▸ List.mem_append_right _ List.mem_cons_self) target rfl

theorem noLinksBelow_of_entries (h : ∀ x ∈ s.files.entries, ∀ target, x.2 ≠ .link target) :
    s.NoLinksBelow root :=
  fun _ _ _ target => at?_ne_link_of_entries h _ target

theorem names_dot : (⟨"."⟩ : Path).names = ["."] := by decide

theorem names_inside : (inside root).names = root.names ++ ["."] := by
  rw [inside, Path.names_join (by decide), names_dot]

theorem origin_join {cwd : Place} (h : ¬a.isAbsolute) : origin cwd (root.join a) = origin cwd root := by
  rw [origin, origin, Path.isAbsolute_join h]

theorem steps_inside : (inside root).steps = root.names ++ ["."] := by
  have h : (inside root).endsWithSlash = false := by
    rw [inside, Path.endsWithSlash_join (by decide) (by decide)]
    rfl
  rw [steps_eq_names h, names_inside]

theorem refused?_eq_none_iff : refused? p = none ↔
    '\x00' ∉ p.text.toList ∧ p.text ≠ "" ∧ p.text.utf8ByteSize < 4096 := by
  unfold refused?
  split
  next h => simp [show '\x00' ∈ p.text.toList by simpa using h]
  next h =>
    split
    next he => simp [he]
    next he =>
      split
      next hs => simp [hs]
      next hs => simpa [he, Nat.lt_of_not_le hs] using h

theorem refused?_inside (ha : ¬a.isAbsolute) (hne : a.text ≠ "") (h : refused? (root.join a) = none) :
    refused? (inside root) = none := by
  have hpos : 0 < a.text.utf8ByteSize := Nat.pos_of_ne_zero fun h => hne (by simpa using h)
  have hdot : ".".utf8ByteSize = 1 := by decide
  obtain ⟨front, hf⟩ := Path.exists_text_join root
  obtain ⟨hz, -, hs⟩ := refused?_eq_none_iff.1 h
  rw [hf a ha] at hz hs
  rw [refused?_eq_none_iff, inside, hf _ (by decide)]
  simp only [String.toList_append, List.mem_append, not_or, String.utf8ByteSize_append] at hz hs ⊢
  exact ⟨⟨hz.1, by decide⟩, by simp, by omega⟩

/-- A relative path that ends in a file name. -/
structure Ends (a : Path) (dirs : List String) (n : String) : Prop where
  relative : ¬a.isAbsolute
  names : a.names = dirs ++ [n]
  noSlash : a.endsWithSlash = false
  isName : n ≠ "." ∧ n ≠ ".."

variable {dirs : List String} {n : String} {l r : Place}

theorem Ends.text_ne (h : Ends a dirs n) : a.text ≠ "" := by
  intro he
  have hn : a.names = [] := by simp [Path.names, Path.pieces, he, Text.splitWhere]
  simp [h.names] at hn

theorem Ends.names_join (h : Ends a dirs n) : (root.join a).names = root.names ++ dirs ++ [n] := by
  rw [Path.names_join h.relative, h.names, List.append_assoc]

theorem Ends.steps_join (h : Ends a dirs n) : (root.join a).steps = root.names ++ (dirs ++ [n]) := by
  rw [steps_eq_names, h.names_join, List.append_assoc]
  rw [Path.endsWithSlash_join h.relative h.text_ne, h.noSlash]

theorem ends_joinAll {first : String} (hf : Path.IsPiece first)
    (hd : ∀ d ∈ dirs, Path.IsPiece d) (hn : Path.IsPiece n) (hname : n ≠ "." ∧ n ≠ "..") :
    Ends (Path.joinAll ⟨first⟩ (dirs ++ [n])) (first :: dirs) n := by
  have hall : ∀ d ∈ dirs ++ [n], Path.IsPiece d := List.forall_mem_append.2 ⟨hd, by simpa using hn⟩
  have ⟨hnames, habs⟩ := Path.joinAll_spec (p := ⟨first⟩) hall
  refine ⟨?_, ?_, ?_, hname⟩
  · rw [habs]
    exact hf.relative
  · rw [hnames, hf.names]
    rfl
  · rw [Path.joinAll, List.foldl_append]
    simp only [List.foldl_cons, List.foldl_nil]
    rw [Path.endsWithSlash_join hn.relative hn.ne_empty, hn.noSlash]

theorem NoLinksBelow.grown (hl : s.NoLinksBelow root) (hg : s.Grows s')
    (hr : s.LeadsTo (inside root) r) (below : Place) (target : Path) :
    s'.files.at? (r ++ below) ≠ some (.link target) :=
  fun h => hl r hr below target (hg.2.fresh _ _ h)

theorem locate_inside {ms : List String} (ha : ¬a.isAbsolute) (hne : a.text ≠ "")
    (hr : refused? (root.join a) = none) (hms : ms ≠ [])
    (h : Walks s.files linkLimit (origin s.directory (root.join a)) (root.names ++ ms) q e) :
    ∃ r links, s.locate (inside root) = .ok (r, .directory) ∧ Walks s.files links r ms q e := by
  obtain ⟨r, links, h₁, h₂⟩ := h.split hms
  refine ⟨r, links, locate_eq_ok_iff.2 ⟨refused?_inside ha hne hr, ?_⟩, h₂⟩
  rw [steps_inside, inside, origin_join (by decide)]
  rw [origin_join ha] at h₁
  exact h₁.append (.stay .stop)

theorem locate_join (hl : s.NoLinksBelow root) (hg : s.Grows s') (ha : Ends a dirs n)
    (hland : land? [] dirs = some l) (h : s'.locate (root.join a) = .ok (q, e)) :
    ∃ r, s.LeadsTo (inside root) r ∧ q = r ++ (l ++ [n]) ∧ s'.files.at? q = some e := by
  obtain ⟨hr, hw⟩ := locate_eq_ok_iff.1 h
  rw [ha.steps_join] at hw
  obtain ⟨r, links, hi, hw⟩ := locate_inside ha.relative ha.text_ne hr (by simp) hw
  have hlead : s.LeadsTo (inside root) r := ⟨s', _, hg, hi⟩
  have hnone := hl.grown hg hlead
  obtain ⟨d, links', hd, hlast⟩ := hw.split (by simp)
  obtain rfl := hd.land hnone (List.append_nil r) hland
  have hlast := hlast.last ha.isName fun target => by
    rw [List.append_assoc]
    exact hnone _ target
  exact ⟨r, hlead, by rw [hlast.1, List.append_assoc], hlast.2⟩

theorem LeadsTo.join (hl : s.NoLinksBelow root) (ha : Ends a dirs n) (hland : land? [] dirs = some l)
    (h : s.LeadsTo (root.join a) q) : ∃ r, s.LeadsTo (inside root) r ∧ q = r ++ (l ++ [n]) := by
  obtain ⟨s', e, hg, h⟩ := h
  obtain ⟨r, hr, hq, -⟩ := locate_join hl hg ha hland h
  exact ⟨r, hr, hq⟩

theorem Opens.join {d : Place} {m : String} (hl : s.NoLinksBelow root) (hg : s.Grows s')
    (ha : Ends a dirs n) (hland : land? [] dirs = some l) (h : s'.Opens (root.join a) d m) :
    ∃ r, s.LeadsTo (inside root) r ∧ d ++ [m] = r ++ (l ++ [n]) := by
  have hnames : (root.join a).names = root.names ++ dirs ++ [n] := ha.names_join
  have hm : m = n := by simpa [hnames, eq_comm] using h.last
  have hw := h.walks
  rw [hnames, List.dropLast_concat] at hw
  have hw := hw.append (.stay .stop)
  rw [List.append_assoc] at hw
  obtain ⟨r, links, hi, hw⟩ := locate_inside ha.relative ha.text_ne h.accepted (by simp) hw
  have hlead : s.LeadsTo (inside root) r := ⟨s', _, hg, hi⟩
  refine ⟨r, hlead, ?_⟩
  rw [hw.land (hl.grown hg hlead) (List.append_nil r) ((land?_append_here _ _).trans hland), hm,
    List.append_assoc]

/-- Where the directories on the way from a root lead. -/
theorem LeadsTo.way {ms : List String} (hl : s.NoLinksBelow root) (hr : s.LeadsTo (inside root) r)
    (habs : a.isAbsolute = root.isAbsolute) (hnames : a.names = root.names ++ ms) (hms : ms ≠ [])
    (hland : land? [] ms = some l) (h : s.LeadsTo a q) : q = r ++ l := by
  obtain ⟨s₁, e₁, hg₁, h₁⟩ := h
  obtain ⟨s₂, e₂, hg₂, h₂⟩ := hr
  have hw₂ := (locate_eq_ok_iff.1 h₂).2
  rw [steps_inside, inside, origin_join (by decide), hg₂.1] at hw₂
  obtain ⟨r₂, _, hr₂, hdot⟩ := hw₂.split (by simp)
  cases hdot.of_here
  have hw₁ := (locate_eq_ok_iff.1 h₁).2
  obtain ⟨tail, hsteps, hland⟩ : ∃ tail, a.steps = root.names ++ (ms ++ tail) ∧
      land? [] (ms ++ tail) = some l := by
    unfold Path.steps
    rw [hnames]
    split
    · exact ⟨["."], List.append_assoc .., by rwa [land?_append_here]⟩
    · exact ⟨[], by simp, by simpa using hland⟩
  have ho : origin s₁.directory a = origin s.directory root := by rw [origin, origin, habs, hg₁.1]
  rw [hsteps, ho] at hw₁
  obtain ⟨r₁, _, hr₁, hw₁⟩ := hw₁.split (by simp [hms])
  obtain rfl := hr₁.unique hg₁.2 hg₂.2 hr₂
  exact hw₁.land (hl.grown hg₁ ⟨s₂, _, hg₂, h₂⟩) (List.append_nil _) hland

/-- A path that is not found, though something stands where it leads once directories are made, or a
directory is to be made there on the way to the root. -/
def Obscured (s : Workspace) (root p : Path) : Prop :=
  ¬s.has p ∧ ∃ q, s.LeadsTo p q ∧
    (s.files.at? q ≠ none ∨ ∃ a : Path, a.UpTo root ∧ s.LeadsTo a q)

/-- Where there are no links, a path that leads to a free place deeper than its root is not obscured. -/
theorem not_obscured_of_length_lt (hl : ∀ q target, s.files.at? q ≠ some (.link target))
    (hq : s.LeadsTo p q) (hnone : s.files.at? q = none)
    (hlong : s.directory.length + root.names.length + 1 < q.length) : ¬s.Obscured root p := by
  rintro ⟨-, q', hq', h⟩
  obtain rfl := hq.unique hq'
  obtain h | ⟨a, ha, s', e, hg, hloc⟩ := h
  · exact h hnone
  have hw := (locate_eq_ok_iff.1 hloc).2.length_le fun r target hat => hl r target (hg.2.fresh r target hat)
  have hstart : (origin s'.directory a).length ≤ s.directory.length := by
    unfold origin
    split
    · exact Nat.zero_le _
    · exact Nat.le_of_eq (congrArg List.length hg.1)
  have hsteps : a.steps.length ≤ root.names.length + 1 := by
    have hnames := ha.names.length_le
    unfold Path.steps
    split
    · rw [List.length_append, List.length_singleton]
      omega
    · omega
  omega

/-- A path that is free in a directory that is there is not obscured. -/
theorem not_obscured_of_free {d : Place} {n : String}
    (hl : ∀ x ∈ s.files.entries, ∀ target, x.2 ≠ .link target) (hnone : s.files.at? (d ++ [n]) = none)
    (hlocate : (s.put (d ++ [n]) (.file (.text "") 0)).locate p = .ok (d ++ [n], .file (.text "") 0))
    (hlong : s.directory.length + root.names.length + 1 < (d ++ [n]).length) : ¬s.Obscured root p := by
  have hg : s.Grows (s.put (d ++ [n]) (.file (.text "") 0)) :=
    ⟨rfl, grows_put (by simp) (by simp [hnone]) nofun⟩
  exact not_obscured_of_length_lt (at?_ne_link_of_entries hl) ⟨_, _, hg, hlocate⟩ hnone hlong

end Workspace

end OperatorScaffold

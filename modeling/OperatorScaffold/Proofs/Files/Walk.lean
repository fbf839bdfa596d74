import OperatorScaffold.Files.Tree
/-!
Walks through a tree of files as a relation, and what becomes of them when the tree grows.
-/

namespace OperatorScaffold.FileTree

/-- A name that an entry can have. -/
structure IsName (n : String) : Prop where
  ne_here : n ≠ "."
  ne_up : n ≠ ".."
  short : n.utf8ByteSize ≤ 255

/-- A walk along names that starts in a directory and follows so many links at most. -/
inductive Walks (t : FileTree) : Nat → Place → List String → Place → Entry → Prop
  | stop {links here} : Walks t links here [] here .directory
  | stay {links here ns q e} : Walks t links here ns q e → Walks t links here ("." :: ns) q e
  | up {links here ns q e} : Walks t links here.dropLast ns q e → Walks t links here (".." :: ns) q e
  | enter {links here n ns q e} : IsName n → t.at? (here ++ [n]) = some .directory →
      Walks t links (here ++ [n]) ns q e → Walks t links here (n :: ns) q e
  | file {links here n c m} : IsName n → t.at? (here ++ [n]) = some (.file c m) →
      Walks t links here [n] (here ++ [n]) (.file c m)
  | link {links here n target ns q e} : IsName n → t.at? (here ++ [n]) = some (.link target) →
      Walks t links (if target.isAbsolute then [] else here) (target.steps ++ ns) q e →
      Walks t (links + 1) here (n :: ns) q e

variable {t t' : FileTree} {links : Nat} {here q : Place} {ns ms : List String} {n : String} {e : Entry}

/-- Where a walk goes on behind a link. -/
def jump (t : FileTree) : Nat → Place → List String → Except FileError (Place × Entry)
  | 0 => fun _ _ => .error .tooManyLinks
  | links + 1 => walk t links

theorem walk_eq_follow : walk t links here ns = follow t (jump t links) here .directory ns := by
  cases links <;> rfl

@[simp] theorem not_isName_here : ¬IsName "." := fun h => h.ne_here rfl

@[simp] theorem not_isName_up : ¬IsName ".." := fun h => h.ne_up rfl

section Follow

variable {jump : Place → List String → Except FileError (Place × Entry)}

theorem follow_here : follow t jump here .directory ("." :: ns) = follow t jump here .directory ns := by
  simp [follow]

theorem follow_up :
    follow t jump here .directory (".." :: ns) = follow t jump here.dropLast .directory ns := by
  simp [follow]

theorem follow_name (h : IsName n) : follow t jump here .directory (n :: ns) =
    match t.at? (here ++ [n]) with
    | none => .error .noEntry
    | some (.link target) => jump (if target.isAbsolute then [] else here) (target.steps ++ ns)
    | some next => follow t jump (here ++ [n]) next ns := by
  exact (if_neg h.ne_here).trans ((if_neg h.ne_up).trans (if_neg (Nat.not_lt.2 h.short)))

end Follow

theorem Walks.walk_eq (h : Walks t links here ns q e) : walk t links here ns = .ok (q, e) := by
  induction h with
  | stop => simp [walk_eq_follow, follow]
  | stay _ ih => rwa [walk_eq_follow, follow_here, ← walk_eq_follow]
  | up _ ih => rwa [walk_eq_follow, follow_up, ← walk_eq_follow]
  | enter hn hat _ ih => simpa only [walk_eq_follow, follow_name hn, hat] using ih
  | file hn hat =>
    rw [walk_eq_follow, follow_name hn, hat]
    rfl
  | link hn hat _ ih => simpa only [walk_eq_follow, follow_name hn, hat, jump] using ih

theorem walks_of_follow
    (hlink : ∀ here n target ns, IsName n → t.at? (here ++ [n]) = some (.link target) →
      jump t links (if target.isAbsolute then [] else here) (target.steps ++ ns) = .ok (q, e) →
      Walks t links here (n :: ns) q e)
    (h : follow t (jump t links) here .directory ns = .ok (q, e)) : Walks t links here ns q e := by
  -- on the names; a link needs an induction of its own, on how many may still be followed
  induction ns generalizing here with
  | nil =>
    obtain ⟨rfl, rfl⟩ := Prod.mk.inj (Except.ok.inj h)
    exact .stop
  | cons n ns ih =>
    by_cases hd : n = "."
    · rw [hd, follow_here] at h
      exact hd ▸ .stay (ih h)
    · by_cases hu : n = ".."
      · rw [hu, follow_up] at h
        exact hu ▸ .up (ih h)
      · by_cases hs : 255 < n.utf8ByteSize
        · rw [follow, if_neg hd, if_neg hu, if_pos hs] at h
          cases h
        · have hn : IsName n := ⟨hd, hu, Nat.not_lt.1 hs⟩
          rw [follow_name hn] at h
          split at h
          next => cases h
          next target hat => exact hlink here n target ns hn hat h
          next next hlink' hat =>
            cases next with
            | directory => exact .enter hn hat (ih h)
            | link target => exact absurd rfl (hlink' target)
            | file c m =>
              cases ns with
              | nil =>
                obtain ⟨rfl, rfl⟩ := Prod.mk.inj (Except.ok.inj h)
                exact .file hn hat
              | cons => cases h

theorem walks_of_walk (h : walk t links here ns = .ok (q, e)) : Walks t links here ns q e := by
  induction links generalizing here ns with
  | zero =>
    rw [walk_eq_follow] at h
    exact walks_of_follow (fun _ _ _ _ _ _ hj => nomatch hj) h
  | succ links ih =>
    rw [walk_eq_follow] at h
    exact walks_of_follow (fun _ _ _ _ hn hat hj => .link hn hat (ih hj)) h

theorem walk_eq_ok_iff : walk t links here ns = .ok (q, e) ↔ Walks t links here ns q e :=
  ⟨walks_of_walk, Walks.walk_eq⟩

theorem Walks.of_here (h : Walks t links here ("." :: ns) q e) : Walks t links here ns q e := by
  have h := h.walk_eq
  rw [walk_eq_follow, follow_here, ← walk_eq_follow] at h
  exact walks_of_walk h

theorem Walks.of_up (h : Walks t links here (".." :: ns) q e) :
    Walks t links here.dropLast ns q e := by
  have h := h.walk_eq
  rw [walk_eq_follow, follow_up, ← walk_eq_follow] at h
  exact walks_of_walk h

theorem Walks.weaken {more : Nat} (h : Walks t links here ns q e) :
    Walks t (more + links) here ns q e := by
  induction h with
  | stop => exact .stop
  | stay _ ih => exact .stay ih
  | up _ ih => exact .up ih
  | enter hn hat _ ih => exact .enter hn hat ih
  | file hn hat => exact .file hn hat
  | link hn hat _ ih => exact .link hn hat ih

theorem Walks.append {mid : Place} (h : Walks t links here ns mid .directory)
    (hms : Walks t 0 mid ms q e) : Walks t links here (ns ++ ms) q e := by
  generalize hd : Entry.directory = d at h
  induction h with
  | stop => exact hms.weaken
  | stay _ ih => exact .stay (ih hms hd)
  | up _ ih => exact .up (ih hms hd)
  | enter hn hat _ ih => exact .enter hn hat (ih hms hd)
  | file => cases hd
  | link hn hat _ ih => exact .link hn hat (List.append_assoc .. ▸ ih hms hd)

/-- A walk that goes on is in a directory. -/
theorem Walks.split (h : Walks t links here (ns ++ ms) q e) (hms : ms ≠ []) :
    ∃ mid links', Walks t links here ns mid .directory ∧ Walks t links' mid ms q e := by
  generalize hl : ns ++ ms = l at h
  induction h generalizing ns with
  | stop => exact absurd (List.append_eq_nil_iff.1 hl).2 hms
  | stay h ih =>
    obtain ⟨rfl, rfl⟩ | ⟨ns, rfl, rfl⟩ := List.append_eq_cons_iff.1 hl
    · exact ⟨_, _, .stop, .stay h⟩
    · obtain ⟨mid, links', h₁, h₂⟩ := ih rfl
      exact ⟨mid, links', .stay h₁, h₂⟩
  | up h ih =>
    obtain ⟨rfl, rfl⟩ | ⟨ns, rfl, rfl⟩ := List.append_eq_cons_iff.1 hl
    · exact ⟨_, _, .stop, .up h⟩
    · obtain ⟨mid, links', h₁, h₂⟩ := ih rfl
      exact ⟨mid, links', .up h₁, h₂⟩
  | enter hn hat h ih =>
    obtain ⟨rfl, rfl⟩ | ⟨ns, rfl, rfl⟩ := List.append_eq_cons_iff.1 hl
    · exact ⟨_, _, .stop, .enter hn hat h⟩
    · obtain ⟨mid, links', h₁, h₂⟩ := ih rfl
      exact ⟨mid, links', .enter hn hat h₁, h₂⟩
  | @file links _ _ _ _ hn hat =>
    obtain ⟨rfl, rfl⟩ | ⟨ns, rfl, hnil⟩ := List.append_eq_cons_iff.1 hl
    · exact ⟨_, links, .stop, .file hn hat⟩
    · exact absurd (List.append_eq_nil_iff.1 hnil.symm).2 hms
  | @link _ _ _ target _ _ _ hn hat h ih =>
    obtain ⟨rfl, rfl⟩ | ⟨ns, rfl, rfl⟩ := List.append_eq_cons_iff.1 hl
    · exact ⟨_, _, .stop, .link hn hat h⟩
    · obtain ⟨mid, links', h₁, h₂⟩ := ih (List.append_assoc target.steps ns ms)
      exact ⟨mid, links', .link hn hat h₁, h₂⟩

end OperatorScaffold.FileTree

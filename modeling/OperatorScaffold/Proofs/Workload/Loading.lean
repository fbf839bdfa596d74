import OperatorScaffold.Proofs.Failure
import OperatorScaffold.Proofs.Files.Walk
import OperatorScaffold.Workload.Loader
/-!
How the loading of a document ends. Every file that is being loaded is another place of the
workspace, which has only so many, and the stack is left as it was found.
-/

namespace OperatorScaffold

namespace FileTree

variable {t : FileTree} {links : Nat} {here p q : Place} {ns : List String} {e : Entry}

theorem mem_of_at?_eq_some (hp : p ≠ []) (h : t.at? p = some e) : ∃ x ∈ t.entries, x.1 = p := by
  rw [at?, if_neg hp, List.lookup_eq_some_iff] at h
  obtain ⟨before, after, h, -⟩ := h
  exact ⟨(p, e), by simp [h], rfl⟩

/-- A walk ends at or above the place that it starts from, or at or above an entry. -/
theorem Walks.bounded (h : Walks t links here ns q e) :
    q <+: here ∨ ∃ x ∈ t.entries, q <+: x.1 := by
  have hentry {here : Place} {n : String} {e : Entry} (hat : t.at? (here ++ [n]) = some e)
      (hq : q <+: here ++ [n]) : ∃ x ∈ t.entries, q <+: x.1 := by
    obtain ⟨x, hx, hxp⟩ := mem_of_at?_eq_some (by simp) hat
    exact ⟨x, hx, hxp ▸ hq⟩
  induction h with
  | stop => exact .inl (List.prefix_refl _)
  | stay _ ih => exact ih hentry
  | up _ ih => exact (ih hentry).imp_left fun h => h.trans (List.dropLast_prefix _)
  | enter _ hat _ ih => exact .inr ((ih hentry).elim (hentry hat) id)
  | file _ hat => exact .inr (hentry hat (List.prefix_refl _))
  | link _ _ _ ih =>
    refine (ih hentry).imp_left fun h => ?_
    split at h
    next => exact List.prefix_nil.1 h ▸ List.nil_prefix
    next => exact h

end FileTree

namespace Workspace

variable {w : Workspace} {p here : Path}

theorem mem_above {p q : Place} (h : q <+: p) : q ∈ above p :=
  List.mem_map.2 ⟨q.length, List.mem_range.2 (Nat.lt_succ_of_le h.length_le),
    (List.prefix_iff_eq_take.1 h).symm⟩

theorem mem_places_of_canonical (h : w.canonical p = .ok here) : here ∈ w.places := by
  obtain ⟨⟨q, e⟩, hwalk, h⟩ := bind_eq_ok.1 h
  cases h
  refine List.mem_map_of_mem (List.mem_flatMap.2 ?_)
  unfold locate FileTree.locate at hwalk
  split at hwalk
  next => cases hwalk
  next =>
    have hstart : FileTree.origin w.directory p <+: w.directory := by
      unfold FileTree.origin
      split
      next => exact List.nil_prefix
      next => exact List.prefix_refl _
    obtain h | ⟨x, hx, h⟩ := (FileTree.walks_of_walk hwalk).bounded
    · exact ⟨w.directory, List.mem_cons_self, mem_above (h.trans hstart)⟩
    · exact ⟨x.1, List.mem_cons_of_mem _ (List.mem_map_of_mem hx), mem_above h⟩

/-- The places that are not on a stack. -/
def offStack (w : Workspace) (stack : List Path) : List Path := w.places.filter (· ∉ stack)

theorem length_offStack_le (w : Workspace) (stack : List Path) :
    (w.offStack stack).length ≤ w.places.length := List.length_filter_le ..

theorem length_offStack_lt {stack : List Path} (h : w.canonical p = .ok here) (hs : here ∉ stack) :
    (w.offStack (stack ++ [here])).length < (w.offStack stack).length := by
  have heq : w.offStack (stack ++ [here]) = (w.offStack stack).filter (· ≠ here) := by
    simp only [offStack, List.filter_filter]
    refine List.filter_congr fun q _ => ?_
    simp [and_comm]
  rw [heq]
  refine List.length_filter_lt_length_iff_exists.2 ⟨here, ?_, by simp⟩
  exact List.mem_filter.2 ⟨mem_places_of_canonical h, decide_eq_true hs⟩

end Workspace

/-- A document names a file that is a companion of it, or of a document written inside it. -/
inductive WorkloadDocument.Names : WorkloadDocument → String → Prop
  | own {declaration files inline f} : f ∈ files → Names ⟨declaration, files, inline⟩ f
  | inside {declaration files inline d f} : d ∈ inline → Names d f →
      Names ⟨declaration, files, inline⟩ f

namespace Workload

open WorkloadDocument (Names)

/-- A document is read from a file that is not being loaded. -/
structure Begins (w : Workspace) (stack : List Path) (p here : Path) (d : WorkloadDocument) : Prop where
  canonical : w.canonical p = .ok here
  fresh : here ∉ stack
  read : readDocument w here = .ok d

/-- What the loading of a file may end with, above the stack of those that are being loaded. -/
inductive Loading (w : Workspace) : List Path → Path → Except ParseError LinkedDocument → Prop
  | missing {stack p e} : w.canonical p = .error e → Loading w stack p (.error (.io p e))
  | again {stack p here} : w.canonical p = .ok here → here ∈ stack →
      Loading w stack p (.error (.circularReference (stack.dropWhile (· ≠ here) ++ [here])))
  | unreadable {stack p here e} : w.canonical p = .ok here → readDocument w here = .error e →
      Loading w stack p (.error e)
  | broken {stack p here d f e} : Begins w stack p here d → d.Names f →
      Loading w (stack ++ [here]) ((companionDirectory here).join ⟨f⟩) (.error e) →
      Loading w stack p (.error e)
  | whole {stack p here d companions} (document : ∀ f, d.Names f → LinkedDocument) :
      Begins w stack p here d →
      (∀ f hf, Loading w (stack ++ [here]) ((companionDirectory here).join ⟨f⟩) (.ok (document f hf))) →
      Loading w stack p (.ok ⟨here.text, d.declaration, companions⟩)

variable {α β : Type} {w : Workspace} {load load' : Path → Loader LinkedDocument} {stack : List Path}
  {p here : Path} {depth : Nat}

theorem bind_apply {x : Loader α} {f : α → Loader β} :
    (x >>= f) stack = x stack >>= fun rs => ExceptT.bindCont f rs.1 rs.2 := rfl

/-- A computation ends with a result of a kind, and with the stack that it found. -/
def Settles (x : Loader α) (stack : List Path) (P : Except ParseError α → Prop) : Prop :=
  ∃ r, x stack = some (r, stack) ∧ P r

namespace Settles

variable {x : Loader α} {P : Except ParseError α → Prop} {R : Except ParseError β → Prop}

theorem pure {a : α} (h : P (.ok a)) : Settles (pure a) stack P := ⟨_, rfl, h⟩

theorem bind {f : α → Loader β} (hx : Settles x stack P) (hf : ∀ a, P (.ok a) → Settles (f a) stack R)
    (herror : ∀ e, P (.error e) → R (.error e)) : Settles (x >>= f) stack R := by
  obtain ⟨r, hx, hr⟩ := hx
  rw [Settles, bind_apply, hx]
  cases r with
  | ok a => exact hf a hr
  | error e => exact ⟨.error e, rfl, herror e hr⟩

end Settles

/-- What computations for all members of a list, one after the other, end with. -/
def Gathered {γ : Type} (member : α → Prop) (R : α → Except ParseError β → Prop) :
    Except ParseError γ → Prop
  | .ok _ => ∀ a, member a → ∃ b, R a (.ok b)
  | .error e => ∃ a, member a ∧ R a (.error e)

theorem Settles.mapM {f : α → Loader β} {R : α → Except ParseError β → Prop} {as : List α}
    (h : ∀ a ∈ as, Settles (f a) stack (R a)) :
    Settles (as.mapM f) stack (Gathered (· ∈ as) R) := by
  induction as with
  | nil => exact .pure nofun
  | cons a as ih =>
    obtain ⟨ha, has⟩ := List.forall_mem_cons.1 h
    rw [List.mapM_cons]
    refine ha.bind (fun b hb => (ih has).bind (fun bs hbs => .pure ?_) fun e => ?_) fun e he => ?_
    · exact List.forall_mem_cons.2 ⟨⟨b, hb⟩, hbs⟩
    · exact fun ⟨a', ha', he⟩ => ⟨a', List.mem_cons_of_mem _ ha', he⟩
    · exact ⟨a, List.mem_cons_self, he⟩

section Companions

variable {R : String → Except ParseError LinkedDocument → Prop} (declaredIn : Path)

mutual

/-- The companions of a document are loaded where all files are that it names. -/
theorem settles_loadCompanions (label : String) : (d : WorkloadDocument) →
    (∀ f, d.Names f → Settles (load ((companionDirectory declaredIn).join ⟨f⟩)) stack (R f)) →
    Settles (loadCompanions load declaredIn label d) stack (Gathered d.Names R)
  | ⟨declaration, files, inline⟩, h => by
    have hfiles : Settles (files.mapM fun f => load ((companionDirectory declaredIn).join ⟨f⟩)) stack
        (Gathered (· ∈ files) R) := .mapM fun f hf => h f (.own hf)
    have hinline := settles_loadInline label 0 inline fun d hd f hf => h f (.inside hd hf)
    rw [loadCompanions]
    refine hfiles.bind (fun _ hok => hinline.bind (fun _ hok' => .pure ?_) ?_) ?_
    · intro f hf
      cases hf with
      | own hf => exact hok f hf
      | inside hd hf => exact hok' f ⟨_, hd, hf⟩
    · rintro e ⟨f, ⟨d, hd, hf⟩, he⟩
      exact ⟨f, .inside hd hf, he⟩
    · rintro e ⟨f, hf, he⟩
      exact ⟨f, .own hf, he⟩

theorem settles_loadInline (label : String) (i : Nat) : (ds : List WorkloadDocument) →
    (∀ d ∈ ds, ∀ f, d.Names f → Settles (load ((companionDirectory declaredIn).join ⟨f⟩)) stack (R f)) →
    Settles (loadInline load declaredIn label i ds) stack (Gathered (fun f => ∃ d ∈ ds, d.Names f) R)
  | [], _ => by
    rw [loadInline]
    refine .pure ?_
    rintro f ⟨d, hd, -⟩
    cases hd
  | d :: ds, h => by
    obtain ⟨hd, hds⟩ := List.forall_mem_cons.1 h
    rw [loadInline]
    refine (settles_loadCompanions _ d hd).bind (fun _ hok =>
      (settles_loadInline label (i + 1) ds hds).bind (fun _ hok' => .pure ?_) ?_) ?_
    · rintro f ⟨d', hd', hf⟩
      obtain rfl | hd' := List.mem_cons.1 hd'
      · exact hok f hf
      · exact hok' f ⟨d', hd', hf⟩
    · rintro e ⟨f, ⟨d', hd', hf⟩, he⟩
      exact ⟨f, ⟨d', List.mem_cons_of_mem _ hd', hf⟩, he⟩
    · rintro e ⟨f, hf, he⟩
      exact ⟨f, ⟨d, List.mem_cons_self, hf⟩, he⟩

end

end Companions

/-- What is done with a file that is there, as a function of the stack. -/
theorem loadWithin_eq (hc : w.canonical p = .ok here) : loadWithin w (depth + 1) p stack =
    if here ∈ stack then some (.error (.circularReference (stack.dropWhile (· ≠ here) ++ [here])), stack)
    else match readDocument w here with
      | .error e => some (.error e, stack)
      | .ok d => do
        let (r, stack) ← loadCompanions (loadWithin w depth) here here.text d (stack ++ [here])
        return (r.map (LinkedDocument.mk here.text d.declaration), stack.dropLast) := by
  rw [loadWithin, hc]
  change (if here ∈ stack then _ else _ : Loader LinkedDocument) stack = _
  split
  next => rfl
  next => cases readDocument w here <;> rfl

theorem loadWithin_missing {e : FileError} (hc : w.canonical p = .error e) :
    loadWithin w (depth + 1) p stack = some (.error (.io p e), stack) := by
  rw [loadWithin, hc]
  rfl

/-- Loading ends if it may go deeper than there are places off the stack. -/
theorem settles_loadWithin (hdepth : (w.offStack stack).length < depth) :
    Settles (loadWithin w depth p) stack (Loading w stack p) := by
  induction depth generalizing stack p with
  | zero => omega
  | succ depth ih =>
    cases hc : w.canonical p with
    | error e => exact ⟨_, loadWithin_missing hc, .missing hc⟩
    | ok here =>
      by_cases hs : here ∈ stack
      · exact ⟨_, (loadWithin_eq hc).trans (if_pos hs), .again hc hs⟩
      · rw [Settles, loadWithin_eq hc, if_neg hs]
        cases hd : readDocument w here with
        | error e => exact ⟨_, rfl, .unreadable hc hd⟩
        | ok d =>
          have hless := Workspace.length_offStack_lt hc hs
          obtain ⟨r, hr, hgathered⟩ := settles_loadCompanions here here.text d fun f _ =>
            ih (p := (companionDirectory here).join ⟨f⟩) (Nat.lt_of_lt_of_le hless (Nat.le_of_lt_succ hdepth))
          refine ⟨r.map (LinkedDocument.mk here.text d.declaration), ?_, ?_⟩
          · dsimp only
            rw [hr]
            exact congrArg (fun s => some (_, s)) List.dropLast_concat
          · cases r with
            | error e =>
              obtain ⟨f, hf, he⟩ := hgathered
              exact .broken ⟨hc, hs, hd⟩ hf he
            | ok companions =>
              exact .whole (fun f hf => (hgathered f hf).choose) ⟨hc, hs, hd⟩ fun f hf =>
                (hgathered f hf).choose_spec

theorem loadFile_eq_loadWithin (w : Workspace) : loadFile w = loadWithin w (w.places.length + 1) := by
  funext p
  rw [loadFile]

theorem settles_loadFile (w : Workspace) (stack : List Path) (p : Path) :
    Settles (loadFile w p) stack (Loading w stack p) := by
  rw [loadFile_eq_loadWithin]
  exact settles_loadWithin (Nat.lt_succ_of_le (w.length_offStack_le stack))

/-- Loading ends, and leaves the stack as it was. -/
theorem exists_loadFile_eq (w : Workspace) (stack : List Path) (p : Path) :
    ∃ r, loadFile w p stack = some (r, stack) :=
  (settles_loadFile w stack p).imp fun _ h => h.1

theorem isSome_loadFile (w : Workspace) (stack : List Path) (p : Path) :
    (loadFile w p stack).isSome := by
  obtain ⟨r, hr⟩ := exists_loadFile_eq w stack p
  exact hr ▸ rfl

/-!
How deep a loading may go makes no difference where it ends: what is loaded with a greater depth, or
with the one that is enough for every file, is the same.
-/

/-- Where the first computation ends, the second ends in the same way. -/
def Extends (x y : Loader α) : Prop := ∀ ⦃stack r⦄, x stack = some r → y stack = some r

namespace Extends

variable {x y : Loader α} {f g : α → Loader β}

theorem refl (x : Loader α) : Extends x x := fun _ _ h => h

theorem bind (hx : Extends x y) (hf : ∀ a, Extends (f a) (g a)) : Extends (x >>= f) (y >>= g) := by
  intro stack r h
  rw [bind_apply] at h ⊢
  obtain ⟨⟨result, stack'⟩, hstart, h⟩ := Option.bind_eq_some_iff.1 h
  refine Option.bind_eq_some_iff.2 ⟨_, hx hstart, ?_⟩
  cases result with
  | ok a => exact hf a h
  | error e => exact h

theorem mapM (h : ∀ a, Extends (f a) (g a)) (as : List α) : Extends (as.mapM f) (as.mapM g) := by
  induction as with
  | nil => exact .refl _
  | cons a as ih =>
    rw [List.mapM_cons, List.mapM_cons]
    exact (h a).bind fun b => ih.bind fun bs => .refl _

mutual

theorem loadCompanions (hload : ∀ p, Extends (load p) (load' p)) (declaredIn : Path) (label : String) :
    (d : WorkloadDocument) →
      Extends (loadCompanions load declaredIn label d) (Workload.loadCompanions load' declaredIn label d)
  | ⟨declaration, files, inline⟩ => by
    rw [Workload.loadCompanions, Workload.loadCompanions]
    exact (mapM (fun f => hload _) files).bind fun loaded =>
      (loadInline hload declaredIn label 0 inline).bind fun _ => .refl _

theorem loadInline (hload : ∀ p, Extends (load p) (load' p)) (declaredIn : Path) (label : String)
    (i : Nat) : (ds : List WorkloadDocument) →
      Extends (loadInline load declaredIn label i ds) (Workload.loadInline load' declaredIn label i ds)
  | [] => by
    rw [Workload.loadInline, Workload.loadInline]
    exact .refl _
  | d :: ds => by
    rw [Workload.loadInline, Workload.loadInline]
    exact (loadCompanions hload declaredIn _ d).bind fun companions =>
      (loadInline hload declaredIn label (i + 1) ds).bind fun _ => .refl _

end

end Extends

theorem extends_loadWithin (w : Workspace) (depth : Nat) (p : Path) :
    Extends (loadWithin w depth p) (loadWithin w (depth + 1) p) := by
  induction depth generalizing p with
  | zero => intro stack r h; cases h
  | succ depth ih =>
    intro stack r h
    cases hc : w.canonical p with
    | error e => rwa [loadWithin_missing hc] at h ⊢
    | ok here =>
      rw [loadWithin_eq hc] at h ⊢
      split at h
      next hs => rwa [if_pos hs]
      next hs =>
        rw [if_neg hs]
        cases hd : readDocument w here with
        | error e => rwa [hd] at h
        | ok d =>
          rw [hd] at h
          obtain ⟨rs, hrs, h⟩ := Option.bind_eq_some_iff.1 h
          exact Option.bind_eq_some_iff.2 ⟨rs, Extends.loadCompanions ih here here.text d hrs, h⟩

theorem loadFile_missing {e : FileError} (hc : w.canonical p = .error e) :
    loadFile w p stack = some (.error (.io p e), stack) := by
  rw [loadFile_eq_loadWithin, loadWithin_missing hc]

/-- Loading is the recursion over files that has no bound. -/
theorem loadFile_eq (hc : w.canonical p = .ok here) : loadFile w p stack =
    if here ∈ stack then some (.error (.circularReference (stack.dropWhile (· ≠ here) ++ [here])), stack)
    else match readDocument w here with
      | .error e => some (.error e, stack)
      | .ok d => do
        let (r, stack) ← loadCompanions (loadFile w) here here.text d (stack ++ [here])
        return (r.map (LinkedDocument.mk here.text d.declaration), stack.dropLast) := by
  obtain ⟨r, hr, -⟩ := settles_loadFile w stack p
  have hdeeper : loadWithin w (w.places.length + 1 + 1) p stack = some (r, stack) :=
    extends_loadWithin w _ p (loadFile_eq_loadWithin w ▸ hr)
  rw [loadWithin_eq hc, ← loadFile_eq_loadWithin] at hdeeper
  exact hr.trans hdeeper.symm

end Workload

end OperatorScaffold

import Mathlib.Data.List.Chain
import Mathlib.Logic.Relation
import OperatorScaffold.Proofs.Workload
/-!
Documents that include each other. A document is refused for its companions exactly as far as the
way to it leads through itself: where it does, no loading succeeds, and the way is what the error
names.
-/

namespace OperatorScaffold.Workload

open Relation

/-- A document includes the files that it names, seen from where it stands. -/
def Includes (w : Workspace) (p q : Path) : Prop :=
  ∃ d f, readDocument w p = .ok d ∧ d.Names f ∧ w.canonical ((companionDirectory p).join ⟨f⟩) = .ok q

/-- A document that includes itself, by way of others or not, is found behind a root. -/
def Circular (w : Workspace) (root : Path) : Prop :=
  ∃ p, ReflTransGen (Includes w) root p ∧ TransGen (Includes w) p p

/-- A way that comes back to where it started, and to no other place twice. -/
structure IsCycle (w : Workspace) (cycle : List Path) : Prop where
  two_le : 2 ≤ cycle.length
  closed : cycle.head? = cycle.getLast?
  distinct : cycle.dropLast.Nodup
  linked : cycle.IsChain (Includes w)

/-- A way of distinct documents that leads from the root to another one. -/
structure Trail (w : Workspace) (root : Path) (stack : List Path) (here : Path) : Prop where
  distinct : stack.Nodup
  linked : (stack ++ [here]).IsChain (Includes w)
  reached : ∀ p ∈ stack ++ [here], ReflTransGen (Includes w) root p

variable {w : Workspace} {root p q here : Path} {stack cycle : List Path} {doc : LinkedDocument}
  {r : Except ParseError LinkedDocument}

theorem readDocument_ne_circularReference : readDocument w p ≠ .error (.circularReference cycle) := by
  intro h
  unfold readDocument at h
  obtain h | ⟨text, -, h⟩ := bind_eq_error.1 h
  · obtain ⟨e, -, h⟩ := mapError_eq_error.1 h
    cases h
  · split at h <;> split at h <;> cases h

section Success

/-- What a loaded document includes has been loaded above it. -/
theorem Loading.includes (h : Loading w stack p (.ok doc)) (hp : w.canonical p = .ok here)
    (hq : Includes w here q) :
    ∃ p' doc', w.canonical p' = .ok q ∧ Loading w (stack ++ [here]) p' (.ok doc') := by
  obtain ⟨d, f, hd, hf, hq⟩ := hq
  cases h with
  | whole document hbegins hloading =>
    cases hp.symm.trans hbegins.canonical
    cases hd.symm.trans hbegins.read
    exact ⟨_, _, hq, hloading f hf⟩

theorem Loading.transGen (h : Loading w stack p (.ok doc)) (hp : w.canonical p = .ok here)
    (hq : TransGen (Includes w) here q) :
    ∃ stack' p' doc', here ∈ stack' ∧ w.canonical p' = .ok q ∧ Loading w stack' p' (.ok doc') := by
  induction hq with
  | single hq =>
    obtain ⟨p', doc', hp', h⟩ := h.includes hp hq
    exact ⟨_, p', doc', List.mem_append_right _ List.mem_cons_self, hp', h⟩
  | tail _ hq ih =>
    obtain ⟨stack', p', doc', hmem, hp', h⟩ := ih
    obtain ⟨p', doc', hp', h⟩ := h.includes hp' hq
    exact ⟨_, p', doc', List.mem_append_left _ hmem, hp', h⟩

theorem Loading.fresh (h : Loading w stack p (.ok doc)) (hp : w.canonical p = .ok here) : here ∉ stack := by
  cases h with
  | whole document hbegins =>
    cases hp.symm.trans hbegins.canonical
    exact hbegins.fresh

theorem Loading.not_circular (h : Loading w stack p (.ok doc)) (hp : w.canonical p = .ok root) :
    ¬Circular w root := by
  intro ⟨q, hreach, hcycle⟩
  obtain ⟨stack', p', doc', hp', h⟩ : ∃ stack' p' doc', w.canonical p' = .ok q ∧
      Loading w stack' p' (.ok doc') := by
    obtain rfl | hreach := reflTransGen_iff_eq_or_transGen.1 hreach
    · exact ⟨stack, p, doc, hp, h⟩
    · obtain ⟨stack', p', doc', -, h⟩ := h.transGen hp hreach
      exact ⟨stack', p', doc', h⟩
  obtain ⟨stack', p', doc', hmem, hp', h⟩ := h.transGen hp' hcycle
  exact h.fresh hp' hmem

end Success

section Failure

theorem dropWhile_ne_of_mem (h : here ∈ stack) : ∃ before between,
    stack = before ++ here :: between ∧ stack.dropWhile (· ≠ here) = here :: between := by
  obtain ⟨before, between, rfl, hfirst⟩ := List.eq_append_cons_of_mem h
  refine ⟨before, between, rfl, ?_⟩
  have hbefore : ∀ p ∈ before, decide (p ≠ here) = true := fun p hp =>
    decide_eq_true (ne_of_mem_of_not_mem hp hfirst)
  rw [List.dropWhile_append_of_pos hbefore, List.dropWhile_cons_of_neg (by simp)]

/-- A trail that leads to one of its own documents ends in a cycle. -/
theorem Trail.isCycle (h : Trail w root stack here) (hs : here ∈ stack) :
    IsCycle w (stack.dropWhile (· ≠ here) ++ [here]) := by
  obtain ⟨before, between, rfl, hdrop⟩ := dropWhile_ne_of_mem hs
  have hlinked := List.append_assoc .. ▸ h.linked
  rw [hdrop]
  refine ⟨by simp, by rw [List.getLast?_concat]; rfl, ?_, hlinked.right_of_append⟩
  rw [List.dropLast_concat]
  exact h.distinct.sublist (List.sublist_append_right _ _)

theorem Trail.isCycle_reached (h : Trail w root stack here) :
    ∀ p ∈ stack.dropWhile (· ≠ here) ++ [here], ReflTransGen (Includes w) root p :=
  fun p hp => h.reached p <| (List.mem_append.1 hp).elim
    (fun hp => List.mem_append_left _ ((List.dropWhile_sublist _).mem hp)) (List.mem_append_right _)

theorem Trail.snoc (h : Trail w root stack here) (hs : here ∉ stack) (hq : Includes w here q) :
    Trail w root (stack ++ [here]) q where
  distinct := List.nodup_append.2 ⟨h.distinct, List.pairwise_singleton .., fun _ hp _ hq =>
    List.mem_singleton.1 hq ▸ ne_of_mem_of_not_mem hp hs⟩
  linked := h.linked.append (.singleton q) (by simpa using hq)
  reached p hp := by
    obtain hp | hp := List.mem_append.1 hp
    · exact h.reached p hp
    · cases List.mem_singleton.1 hp
      exact (h.reached here (by simp)).tail hq

/-- The way that an error names is a cycle, and the root leads to it. -/
theorem Loading.isCycle (h : Loading w stack p r) (hr : r = .error (.circularReference cycle))
    (htrail : ∀ here, w.canonical p = .ok here → Trail w root stack here) :
    IsCycle w cycle ∧ ∀ q ∈ cycle, ReflTransGen (Includes w) root q := by
  induction h with
  | missing => cases hr
  | again hp hs =>
    cases hr
    exact ⟨(htrail _ hp).isCycle hs, (htrail _ hp).isCycle_reached⟩
  | unreadable _ hd =>
    cases hr
    exact absurd hd readDocument_ne_circularReference
  | broken hbegins hf _ ih =>
    refine ih hr fun q hq => (htrail _ hbegins.canonical).snoc hbegins.fresh ?_
    exact ⟨_, _, hbegins.read, hf, hq⟩
  | whole => cases hr

theorem transGen_of_isChain {R : Path → Path → Prop} {between : List Path}
    (h : (p :: between ++ [q]).IsChain R) : TransGen R p q := by
  induction between generalizing p with
  | nil => exact .single (List.isChain_pair.1 h)
  | cons m between ih =>
    obtain ⟨hp, h⟩ := List.isChain_cons_cons.1 h
    exact .head hp (ih h)

theorem IsCycle.circular (h : IsCycle w cycle)
    (hreach : ∀ q ∈ cycle, ReflTransGen (Includes w) root q) : Circular w root := by
  obtain ⟨htwo, hclosed, -, hlinked⟩ := h
  cases cycle with
  | nil => simp at htwo
  | cons p rest =>
    obtain rfl | ⟨between, q, rfl⟩ := rest.eq_nil_or_concat
    · simp at htwo
    · rw [List.concat_eq_append, ← List.cons_append] at hclosed hlinked
      rw [List.getLast?_concat] at hclosed
      cases hclosed
      exact ⟨p, hreach p List.mem_cons_self, transGen_of_isChain hlinked⟩

end Failure

theorem loading_of_loadFile (h : loadFile w p stack = some (r, stack)) : Loading w stack p r := by
  obtain ⟨r', h', hr'⟩ := settles_loadFile w stack p
  cases h.symm.trans h'
  exact hr'

theorem Trail.nil (here : Path) : Trail w here [] here where
  distinct := .nil
  linked := .singleton here
  reached _ hp := List.mem_singleton.1 hp ▸ .refl

/-- The same for a loading that starts with an empty stack, whose root is the file itself. -/
theorem isCycle_of_loadFile
    (h : loadFile w p [] = some (.error (.circularReference cycle), [])) : ∃ root,
      w.canonical p = .ok root ∧ IsCycle w cycle ∧ ∀ q ∈ cycle, ReflTransGen (Includes w) root q := by
  cases hp : w.canonical p with
  | error e =>
    rw [loadFile_missing hp] at h
    cases h
  | ok root =>
    refine ⟨root, rfl, (loading_of_loadFile h).isCycle rfl fun here hhere => ?_⟩
    cases hp.symm.trans hhere
    exact .nil root

/-- Loading ends for every file, and leaves the stack as it was. Where it starts with an empty stack,
the way that an error names is a cycle, and there is one behind the root; a root with a cycle behind
it is loaded above no stack. -/
theorem loadFile_circular (w : Workspace) (p : Path) :
    (∀ stack, ∃ r, loadFile w p stack = some (r, stack)) ∧
      (∀ cycle, loadFile w p [] = some (.error (.circularReference cycle), []) → IsCycle w cycle) ∧
      ∀ root, w.canonical p = .ok root →
        (Circular w root → ∀ stack, ∃ e, loadFile w p stack = some (.error e, stack)) ∧
        (¬Circular w root → ∀ cycle, loadFile w p [] ≠ some (.error (.circularReference cycle), [])) := by
  refine ⟨fun stack => exists_loadFile_eq w stack p, fun cycle h => ?_, fun root hroot =>
    ⟨fun hcircular stack => ?_, fun hnone cycle h => ?_⟩⟩
  · obtain ⟨root, -, hcycle, -⟩ := isCycle_of_loadFile h
    exact hcycle
  · obtain ⟨r, h⟩ := exists_loadFile_eq w stack p
    cases r with
    | error e => exact ⟨e, h⟩
    | ok doc => exact absurd hcircular ((loading_of_loadFile h).not_circular hroot)
  · obtain ⟨root', hroot', hcycle, hreach⟩ := isCycle_of_loadFile h
    cases hroot.symm.trans hroot'
    exact hnone (hcycle.circular hreach)

/-!
Two documents that include each other, one of them by way of a document written inside it.
-/

namespace Loop

def outer : String :=
  "\x7b\"spec\": \x7b\"components\": [\x7b\"spec\": \x7b\"componentFiles\": [\"b.json\"]\x7d\x7d]\x7d\x7d"

def inner : String := "\x7b\"spec\": \x7b\"componentFiles\": [\"a.json\"]\x7d\x7d"

def space : Workspace where
  files := ⟨[(["a.json"], .file (.text outer) 0o644), (["b.json"], .file (.text inner) 0o644)]⟩
  directory := []
  notices := []

def namesInside (f : String) : Option WorkloadDocument → Bool
  | some ⟨_, [], [⟨_, [g], []⟩]⟩ => g = f
  | _ => false

def namesAlone (f : String) : Option WorkloadDocument → Bool
  | some ⟨_, [g], []⟩ => g = f
  | _ => false

theorem namesInside_outer : namesInside "b.json" (Json.read outer >>= WorkloadDocument.ofNode?) := by
  have htext : outer.toList = _ := String.toList_ofList
  rw [Json.read, htext]
  decide +kernel

theorem namesAlone_inner : namesAlone "a.json" (Json.read inner >>= WorkloadDocument.ofNode?) := by
  have htext : inner.toList = _ := String.toList_ofList
  rw [Json.read, htext]
  decide +kernel

theorem includes_outer : Includes space ⟨"/a.json"⟩ ⟨"/b.json"⟩ := by
  have h := namesInside_outer
  unfold namesInside at h
  split at h
  next hread =>
    have htext : space.readText ⟨"/a.json"⟩ = .ok outer := rfl
    cases of_decide_eq_true h
    exact ⟨_, _, readDocument_of_json htext (by decide) hread,
      .inside List.mem_cons_self (.own List.mem_cons_self), rfl⟩
  next => cases h

theorem includes_inner : Includes space ⟨"/b.json"⟩ ⟨"/a.json"⟩ := by
  have h := namesAlone_inner
  unfold namesAlone at h
  split at h
  next hread =>
    have htext : space.readText ⟨"/b.json"⟩ = .ok inner := rfl
    cases of_decide_eq_true h
    exact ⟨_, _, readDocument_of_json htext (by decide) hread, .own List.mem_cons_self, rfl⟩
  next => cases h

theorem circular : Circular space ⟨"/a.json"⟩ :=
  ⟨⟨"/a.json"⟩, .refl, .tail (.single includes_outer) includes_inner⟩

end Loop

theorem loadFile_loop : Loop.space.canonical ⟨"a.json"⟩ = .ok ⟨"/a.json"⟩ ∧
    Circular Loop.space ⟨"/a.json"⟩ ∧ ∀ stack, ∃ e, loadFile Loop.space ⟨"a.json"⟩ stack = some (.error e, stack) :=
  ⟨rfl, Loop.circular, ((loadFile_circular Loop.space ⟨"a.json"⟩).2.2 ⟨"/a.json"⟩ rfl).1 Loop.circular⟩

end OperatorScaffold.Workload

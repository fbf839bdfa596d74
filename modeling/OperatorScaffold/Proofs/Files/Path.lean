import OperatorScaffold.Files.Workspace
import OperatorScaffold.Proofs.Text.Split
/-!
The names of joined paths, and of the directories above a path.
-/

namespace OperatorScaffold.Path

open Text
open scoped List

variable {p q : Path}

/-- The names among some pieces. -/
def namesOf (pieces : List (List Char)) : List String :=
  (pieces.filter (!·.isEmpty)).map String.ofList

theorem names_eq : p.names = namesOf p.pieces := rfl

theorem namesOf_append (ps qs : List (List Char)) : namesOf (ps ++ qs) = namesOf ps ++ namesOf qs := by
  simp [namesOf]

theorem namesOf_cons {x : List Char} (h : x ≠ []) (ps : List (List Char)) :
    namesOf (x :: ps) = .ofList x :: namesOf ps := by
  simp [namesOf, h]

theorem pieces_ne_nil : p.pieces ≠ [] := splitWhere_ne_nil _ _

theorem pieces_slash (xs : List Char) (ys : List Char) :
    (⟨.ofList (xs ++ '/' :: ys)⟩ : Path).pieces = splitWhere (· == '/') xs ++ splitWhere (· == '/') ys := by
  simp only [pieces, String.toList_ofList]
  exact splitWhere_append (by simp) xs ys

theorem isAbsolute_iff : p.isAbsolute ↔ ∃ rest, rest ≠ [] ∧ p.pieces = [] :: rest := by
  unfold isAbsolute pieces
  cases p.text.toList with
  | nil => simp [splitWhere]
  | cons c cs =>
    have hcs := splitWhere_ne_nil (· == '/') cs
    by_cases hc : c = '/'
    · simp [splitWhere, hc, hcs]
    · rw [splitWhere, if_neg (by simpa using hc)]
      split
      next h => exact absurd h hcs
      next => simp [hc]

/-- What a path puts in front of the relative paths that are joined to it. -/
theorem exists_text_join (p : Path) : ∃ front, ∀ q : Path, ¬q.isAbsolute → (p.join q).text = front ++ q.text := by
  by_cases h : p.text = "" || p.endsWithSlash
  · exact ⟨p.text, fun q hq => by rw [join, if_neg hq, if_pos h]⟩
  · exact ⟨p.text ++ "/", fun q hq => by rw [join, if_neg hq, if_neg h]⟩

theorem isAbsolute_join (h : ¬q.isAbsolute) : (p.join q).isAbsolute = p.isAbsolute := by
  rw [join, if_neg h]
  by_cases hp : p.text = ""
  · simp only [hp, decide_true, Bool.true_or, if_true]
    simpa [isAbsolute, hp] using h
  · have hn : p.text.toList ≠ [] := fun e => hp (String.toList_injective (by simpa using e))
    obtain ⟨c, cs, hc⟩ := List.exists_cons_of_ne_nil hn
    split <;> simp [isAbsolute, hc]

theorem names_join (h : ¬q.isAbsolute) : (p.join q).names = p.names ++ q.names := by
  rw [join, if_neg h]
  by_cases hp : p.text = ""
  · simp [hp, names, pieces, splitWhere]
  · by_cases hs : p.endsWithSlash
    · obtain ⟨xs, hx⟩ := List.getLast?_eq_some_iff.1 (by simpa [endsWithSlash] using hs)
      have hq : (⟨p.text ++ q.text⟩ : Path) = ⟨.ofList (xs ++ '/' :: q.text.toList)⟩ := by
        rw [mk.injEq, ← String.toList_inj]
        simp [hx]
      have hp' : p = ⟨.ofList (xs ++ '/' :: [])⟩ := by
        rw [← hx, String.ofList_toList]
      rw [if_pos (by simp [hs]), hq, names_eq, pieces_slash, namesOf_append, names_eq (p := q), pieces]
      rw [hp', names_eq, pieces_slash]
      simp [namesOf, splitWhere]
    · have hq : (⟨p.text ++ "/" ++ q.text⟩ : Path) = ⟨.ofList (p.text.toList ++ '/' :: q.text.toList)⟩ := by
        rw [mk.injEq, ← String.toList_inj]
        simp
      rw [if_neg (by simp [hp, hs]), hq, names_eq, pieces_slash, namesOf_append]
      rfl

theorem endsWithSlash_join (h : ¬q.isAbsolute) (hq : q.text ≠ "") :
    (p.join q).endsWithSlash = q.endsWithSlash := by
  have hn : q.text.toList ≠ [] := fun e => hq (String.toList_injective (by simpa using e))
  have hl := List.getLast?_eq_some_getLast hn
  rw [join, if_neg h]
  split <;> simp [endsWithSlash, List.getLast?_append, List.getLast?_cons, hl]

theorem pieces_slashJoin {ps : List (List Char)} (hne : ps ≠ []) (h : ∀ x ∈ ps, '/' ∉ x) :
    (⟨.ofList (slashJoin ps)⟩ : Path).pieces = ps := by
  induction ps with
  | nil => exact absurd rfl hne
  | cons x ps ih =>
    have ⟨hx, hps⟩ := List.forall_mem_cons.1 h
    have hs : splitWhere (· == '/') x = [x] := by
      refine splitWhere_of_forall fun c hc => ?_
      rw [beq_iff_eq]
      rintro rfl
      exact hx hc
    cases ps with
    | nil => simpa [pieces, slashJoin] using hs
    | cons y ps =>
      rw [slashJoin, pieces_slash, hs, List.singleton_append]
      · have := ih (by simp) hps
        simp only [pieces, String.toList_ofList] at this
        rw [this]
      · simp

theorem not_mem_pieces : ∀ x ∈ p.pieces, '/' ∉ x := by
  have hne : ∀ x ∈ p.pieces, ∀ c ∈ x, c ≠ '/' := forall_mem_splitWhere.2 fun c _ => by simpa using Classical.em (c = '/')
  exact fun x hx hc => hne x hx '/' hc rfl

/-- What is left of some pieces, the last one first, when the idle ones in front are left out. -/
theorem dropIdle_spec (ps : List (List Char)) : ∃ idle, ps = idle ++ dropIdle ps ∧
    (ps ≠ [] → ∃ x rest, dropIdle ps = x :: rest ∧ (rest = [] ∨ ¬isIdle x)) := by
  fun_induction dropIdle ps with
  | case1 => exact ⟨[], rfl, fun h => absurd rfl h⟩
  | case2 first => exact ⟨[], rfl, fun _ => ⟨first, [], rfl, .inl rfl⟩⟩
  | case3 x ps hps hx ih =>
    obtain ⟨idle, e, h⟩ := ih
    have hne : ps ≠ [] := fun e => hps e
    exact ⟨x :: idle, congrArg (x :: ·) e, fun _ => h hne⟩
  | case4 x ps hps hx => exact ⟨[], rfl, fun _ => ⟨x, ps, rfl, .inr hx⟩⟩

/-- Whether a path is absolute shows in any of its beginnings but the root alone. -/
theorem isAbsolute_of_pieces_append {ps tail : List (List Char)} (hp : p.pieces = ps ++ tail)
    (hq : q.pieces = ps) (hne : ps ≠ [[]]) : q.isAbsolute = p.isAbsolute := by
  rw [Bool.eq_iff_iff, isAbsolute_iff, isAbsolute_iff, hp, hq]
  cases ps with
  | nil => exact absurd hq pieces_ne_nil
  | cons x ps =>
    cases ps with
    | nil => simp_all
    | cons y ps => simp

theorem parent?_spec (h : p.parent? = some q) (hq : q.text ≠ "") :
    q.isAbsolute = p.isAbsolute ∧ q.names <+: p.names.dropLast := by
  obtain ⟨idle, hp, hx⟩ := dropIdle_spec p.pieces.reverse
  obtain ⟨x, rest, e, hx⟩ := hx (by simp [pieces_ne_nil])
  unfold parent? at h
  rw [e] at h hp
  cases rest with
  | nil =>
    simp only [List.isEmpty_iff] at h
    split at h
    next => cases h
    next => exact absurd (Option.some.inj h ▸ rfl) hq
  | cons y rest =>
    have hx : x ≠ [] := fun e => (hx.resolve_left (by simp)) (by simp [isIdle, e])
    obtain ⟨idle', hr, hy⟩ := dropIdle_spec (y :: rest)
    obtain ⟨z, qs, e', -⟩ := hy (by simp)
    generalize hps : dropIdle (y :: rest) = ps at hr e'
    have hpieces : p.pieces = ps.reverse ++ (idle'.reverse ++ x :: idle.reverse) := by
      rw [← List.reverse_reverse p.pieces, hp, hr]
      simp
    have hnames : namesOf ps.reverse <+: p.names.dropLast := by
      rw [names_eq, hpieces, namesOf_append, namesOf_append, namesOf_cons hx, ← List.append_assoc,
        List.dropLast_append_of_ne_nil (by simp), List.append_assoc]
      exact List.prefix_append _ _
    have hslash : ∀ x ∈ ps.reverse, '/' ∉ x := fun x hx =>
      not_mem_pieces x (hpieces ▸ List.mem_append_left _ hx)
    simp only [hps] at h
    split at h
    next =>
      obtain rfl := Option.some.inj h
      have ha : p.isAbsolute := isAbsolute_iff.2 ⟨idle'.reverse ++ x :: idle.reverse, by simp, hpieces⟩
      exact ⟨ha.symm, List.nil_prefix⟩
    next hroot =>
      obtain rfl := Option.some.inj h
      have hq := pieces_slashJoin (by simp [e']) hslash
      refine ⟨isAbsolute_of_pieces_append hpieces hq fun e => hroot ?_, ?_⟩
      · simpa using e
      · rwa [names_eq, hq]

theorem climb_spec {fuel : Nat} {a : Path} (h : a ∈ climb fuel p) :
    a.isAbsolute = p.isAbsolute ∧ a.names <+: p.names := by
  induction fuel generalizing p with
  | zero => cases h
  | succ fuel ih =>
    rw [climb] at h
    split at h
    next => cases h
    next q hq =>
      split at h
      next =>
        obtain rfl := List.mem_singleton.1 h
        exact ⟨rfl, List.prefix_rfl⟩
      next hne =>
        obtain rfl | h := List.mem_cons.1 h
        · exact ⟨rfl, List.prefix_rfl⟩
        · have ⟨ha, hn⟩ := ih h
          have ⟨hqa, hqn⟩ := parent?_spec hq hne
          exact ⟨ha.trans hqa, hn.trans (hqn.trans (List.dropLast_prefix _))⟩

theorem ancestors_dot : (⟨"."⟩ : Path).ancestors = [⟨"."⟩] := by decide

/-- A path that goes no further than another one. -/
structure UpTo (a p : Path) : Prop where
  absolute : a.isAbsolute = p.isAbsolute
  names : a.names <+: p.names

/-- A path to a directory that another path goes through. -/
structure OnWay (p a : Path) : Prop where
  absolute : a.isAbsolute = p.isAbsolute
  names : a.names <+: p.names.dropLast

theorem onWay_of_mem_ancestors {a : Path} (h : a ∈ (Workspace.directoryOf p).ancestors)
    (hne : a ≠ ⟨"."⟩) : p.OnWay a := by
  unfold Workspace.directoryOf at h
  split at h
  next q hq =>
    split at h
    next => exact absurd (by simpa [ancestors_dot] using h) hne
    next htext =>
      have ⟨hqa, hqn⟩ := parent?_spec hq htext
      have ⟨ha, hn⟩ := climb_spec h
      exact ⟨ha.trans hqa, hn.trans hqn⟩
  next => exact absurd (by simpa [ancestors_dot] using h) hne

variable {n : String} {ns : List String}

/-- A text that is one part of a path. -/
structure IsPiece (n : String) : Prop where
  ne_empty : n ≠ ""
  no_slash : '/' ∉ n.toList

theorem IsPiece.pieces (h : IsPiece n) : (⟨n⟩ : Path).pieces = [n.toList] := by
  refine Text.splitWhere_of_forall fun c hc => ?_
  rw [beq_iff_eq]
  rintro rfl
  exact h.no_slash hc

theorem IsPiece.toList_ne_nil (h : IsPiece n) : n.toList ≠ [] :=
  fun e => h.ne_empty (String.toList_injective (by simpa using e))

theorem IsPiece.names (h : IsPiece n) : (⟨n⟩ : Path).names = [n] := by
  rw [names_eq, h.pieces, namesOf_cons h.toList_ne_nil, String.ofList_toList]
  rfl

theorem IsPiece.relative (h : IsPiece n) : ¬(⟨n⟩ : Path).isAbsolute := by
  intro ha
  obtain ⟨rest, -, e⟩ := isAbsolute_iff.1 ha
  rw [h.pieces] at e
  exact h.toList_ne_nil (List.cons.inj e).1

theorem IsPiece.noSlash (h : IsPiece n) : (⟨n⟩ : Path).endsWithSlash = false := by
  rw [endsWithSlash, beq_eq_false_iff_ne]
  exact fun e => h.no_slash (List.mem_of_getLast? e)

theorem joinAll_spec (hns : ∀ n ∈ ns, IsPiece n) :
    (p.joinAll ns).names = p.names ++ ns ∧ (p.joinAll ns).isAbsolute = p.isAbsolute := by
  induction ns generalizing p with
  | nil => simp [joinAll]
  | cons n ns ih =>
    have ⟨hn, hns⟩ := List.forall_mem_cons.1 hns
    have ⟨hnames, habs⟩ := ih (p := p.join ⟨n⟩) hns
    rw [names_join hn.relative, hn.names, List.append_assoc] at hnames
    rw [isAbsolute_join hn.relative] at habs
    exact ⟨hnames, habs⟩

end OperatorScaffold.Path

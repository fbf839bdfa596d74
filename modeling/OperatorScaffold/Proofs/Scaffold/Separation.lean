import OperatorScaffold.Project.Record
import OperatorScaffold.Proofs.Scaffold.Destination
import OperatorScaffold.Proofs.Scaffold.Pointwise
/-!
The destinations of a run stay out of each other's way: no two lead to one file, and no directory is
made where a file goes.
-/

namespace OperatorScaffold

open FileTree Naming Workspace
open scoped List

namespace ArtifactKind

variable {i j : Identity} {k k' : ArtifactKind} {s : Workspace} {root : Path} {q : Place}
  {dests : List Path}

/-- What tells the files of artifacts from the directories they go through. -/
def IsStub (q : Place) : Prop :=
  (∃ n ∈ q, '_' ∈ n.toList) ∨ q.head? = some "internal" ∧ q.length = 3

theorem isStub_place : IsStub (k.place i) := by
  cases k
  case dependencies => exact .inr (by simp [place, folder])
  all_goals exact .inl ⟨_, List.mem_append_right _ (List.mem_singleton.2 rfl), by simp [fileName]⟩

theorem not_isStub {q : Place} (hu : ∀ n ∈ q, '_' ∉ n.toList)
    (hq : q.head? ≠ some "internal" ∨ q.length < 3) : ¬IsStub q := by
  rintro (⟨n, hn, hc⟩ | ⟨hh, hl⟩)
  · exact hu n hn hc
  · obtain h | h := hq
    · exact h hh
    · omega

theorem mem_ofGroup {first group n : String} (h : n ∈ ofGroup first group) : n = first ∨ n = group := by
  unfold ofGroup at h
  split at h
  · exact .inl (by simpa using h)
  · split at h
    · cases h
    · simpa using h

theorem exists_land?_group (hi : i.Sound) {first : String} {ms : List String}
    (hf : first ≠ "." ∧ first ≠ ".." ∧ first ≠ "internal" ∧ '_' ∉ first.toList)
    (hms : ms <+: [first, i.group, i.version]) : ∃ l, land? [] ms = some l ∧ ¬IsStub l := by
  have hg : '_' ∉ i.group.toList := hi.not_mem_group (by decide)
  have hv : '_' ∉ i.version.toList := hi.not_mem_version (by decide)
  have hin := hi.version_ne (s := "internal") (by decide)
  obtain ⟨f1, f2, f3, f4⟩ := hf
  have land (tail : Place) (ht : tail = [] ∨ tail = [i.version]) :
      ¬IsStub (ofGroup first i.group ++ tail) := by
    refine not_isStub (fun n hn => ?_) (.inl fun h => ?_)
    · obtain hn | hn := List.mem_append.1 hn
      · obtain rfl | rfl := mem_ofGroup hn
        · exact f4
        · exact hg
      · obtain rfl | rfl := ht
        · cases hn
        · rwa [List.mem_singleton.1 hn]
    · obtain h | h := head?_ofGroup h
      · exact f3 h.symm
      · obtain rfl | rfl := ht
        · cases h
        · exact hin (Option.some.inj h)
  obtain _ | ⟨a, _ | ⟨b, rest⟩⟩ := ms
  · exact ⟨[], rfl, not_isStub (by simp) (.inl (by simp))⟩
  · obtain ⟨rfl, -⟩ := List.cons_prefix_cons.1 hms
    exact ⟨[a], by simp [land?, f1, f2], not_isStub (by simp [f4]) (.inr (by simp))⟩
  · obtain ⟨rfl, hb⟩ := List.cons_prefix_cons.1 hms
    obtain ⟨rfl, hrest⟩ := List.cons_prefix_cons.1 hb
    rw [land?_group ⟨f1, f2⟩]
    obtain _ | ⟨v, rest⟩ := rest
    · exact ⟨_, rfl, by simpa using land [] (.inl rfl)⟩
    · obtain ⟨rfl, hnil⟩ := List.cons_prefix_cons.1 hrest
      obtain rfl := List.prefix_nil.1 hnil
      have h1 := hi.version_ne (s := ".") (by decide)
      have h2 := hi.version_ne (s := "..") (by decide)
      exact ⟨_, by rw [land?, if_neg h1, if_neg h2, land?], land _ (.inr rfl)⟩

theorem exists_land?_pair {first second : String} {ms : List String}
    (hf : first ≠ "." ∧ first ≠ ".." ∧ '_' ∉ first.toList)
    (hs : second ≠ "." ∧ second ≠ ".." ∧ '_' ∉ second.toList)
    (hms : ms <+: [first, second]) : ∃ l, land? [] ms = some l ∧ ¬IsStub l := by
  obtain ⟨f1, f2, f3⟩ := hf
  obtain ⟨s1, s2, s3⟩ := hs
  obtain _ | ⟨a, _ | ⟨b, rest⟩⟩ := ms
  · exact ⟨[], rfl, not_isStub (by simp) (.inr (by simp))⟩
  · obtain ⟨rfl, -⟩ := List.cons_prefix_cons.1 hms
    exact ⟨[a], by simp [land?, f1, f2], not_isStub (by simp [f3]) (.inr (by simp))⟩
  · obtain ⟨rfl, hb⟩ := List.cons_prefix_cons.1 hms
    obtain ⟨rfl, hrest⟩ := List.cons_prefix_cons.1 hb
    obtain rfl := List.prefix_nil.1 hrest
    exact ⟨[a, b], by simp [land?, f1, f2, s1, s2], not_isStub (by simp [f3, s3]) (.inr (by simp))⟩

theorem exists_land? (hi : i.Sound) {ms : List String} (hms : ms <+: k.dirs i) :
    ∃ l, land? [] ms = some l ∧ ¬IsStub l := by
  cases k
  case groupVersion => exact exists_land?_group hi (by decide) hms
  case apiTypes => exact exists_land?_group hi (by decide) hms
  case manifests => exact exists_land?_pair (by decide) (by decide) hms
  case sample => exact exists_land?_pair (by decide) (by decide) hms
  case dependencies => exact exists_land?_pair (by decide) (by decide) hms
  case controller =>
    exact exists_land?_group hi (by decide) (hms.trans (List.prefix_append _ [i.version]))

theorem leadsTo_destination (hl : s.NoLinksBelow root) (hi : i.Sound)
    (h : s.LeadsTo (root.join (k.relativePath i)) q) :
    ∃ r, s.LeadsTo (inside root) r ∧ q = r ++ k.place i :=
  h.join hl (ends_relativePath hi) (land?_dirs hi)

theorem apart_of_place_ne (hl : s.NoLinksBelow root) (hi : i.Sound) (hj : j.Sound)
    (h : k.place i ≠ k'.place j) :
    s.Apart (root.join (k.relativePath i)) (root.join (k'.relativePath j)) := by
  intro q hq hq'
  obtain ⟨r, hr, rfl⟩ := leadsTo_destination hl hi hq
  obtain ⟨r', hr', e⟩ := leadsTo_destination hl hj hq'
  obtain rfl := hr.unique hr'
  exact h (List.append_cancel_left e)

theorem ends_project : Ends ⟨"PROJECT"⟩ [] "PROJECT" := ⟨by decide, by decide, by decide, by decide⟩

theorem apart_project (hl : s.NoLinksBelow root) (hi : i.Sound) :
    s.Apart (root.join (k.relativePath i)) (ProjectFile.path root) := by
  intro q hq hq'
  obtain ⟨r, hr, rfl⟩ := leadsTo_destination hl hi hq
  obtain ⟨r', hr', e⟩ := hq'.join hl ends_project rfl
  obtain rfl := hr.unique hr'
  have hfile := List.append_inj_right' (List.append_cancel_left e) rfl
  exact fileName_ne (s := "PROJECT") (by simp) (List.singleton_inj.1 hfile)

theorem mem_of_land? {here l : Place} {ns : List String} {n : String} (h : land? here ns = some l)
    (hn : n ∈ l) : n ∈ here ∨ n ∈ ns := by
  induction ns generalizing here with
  | nil =>
    obtain rfl := Option.some.inj h
    exact .inl hn
  | cons m ns ih =>
    rw [land?] at h
    split at h
    next => exact (ih h).imp_right (List.mem_cons_of_mem m)
    next =>
      split at h
      next =>
        split at h
        next => cases h
        next => exact (ih h).imp (List.dropLast_sublist here).mem (List.mem_cons_of_mem m)
      next =>
        obtain hn | hn := ih h
        · refine (List.mem_append.1 hn).imp_right fun hn => ?_
          rw [List.mem_singleton.1 hn]
          exact List.mem_cons_self
        · exact .inr (List.mem_cons_of_mem m hn)

/-- A relative path to a file that lands on a stub, while the directories on its way do not. -/
structure Lands (stub : Place → Prop) (a : Path) (dirs : List String) (n : String) (l : Place) :
    Prop where
  ends : Ends a dirs n
  land : land? [] dirs = some l
  ending : stub (l ++ [n])
  way : ∀ ms, ms <+: dirs → ∃ l, land? [] ms = some l ∧ ¬stub l

theorem lands_relativePath (hi : i.Sound) :
    Lands IsStub (k.relativePath i) (k.dirs i) (k.fileName i) (k.folder i) :=
  ⟨ends_relativePath hi, land?_dirs hi, isStub_place, fun _ hms => exists_land? hi hms⟩

section Lands

variable {stub : Place → Prop} {a a' b : Path} {dirs dirs' : List String} {n n' : String} {l l' : Place}

theorem Lands.not_leadsTo_of_onWay (hl : s.NoLinksBelow root) (ha : Lands stub a dirs n l)
    (ha' : Lands stub a' dirs' n' l') (hq : s.LeadsTo (root.join a) q) (hb : (root.join a').OnWay b)
    (hroot : ¬b.UpTo root) : ¬s.LeadsTo b q := by
  intro hq'
  have habs : b.isAbsolute = root.isAbsolute := hb.absolute.trans (Path.isAbsolute_join ha'.ends.relative)
  have hnames := hb.names
  rw [ha'.ends.names_join, List.dropLast_concat] at hnames
  obtain h | ⟨ms, h⟩ := List.prefix_or_prefix_of_prefix hnames (List.prefix_append root.names _)
  · exact hroot ⟨habs, h⟩
  · rw [← h, List.prefix_append_right_inj] at hnames
    obtain ⟨l₁, hland, hstub⟩ := ha'.way ms hnames
    obtain ⟨r, hr, rfl⟩ := hq.join hl ha.ends ha.land
    by_cases hms : ms = []
    · exact hroot ⟨habs, by simp [← h, hms]⟩
    · have e := hr.way hl habs h.symm hms hland hq'
      exact hstub (List.append_cancel_left e ▸ ha.ending)

theorem separate_of_lands (stub : Place → Prop) (hl : s.NoLinksBelow root)
    (hd : ∀ p ∈ dests, ∃ a dirs n l, Lands stub a dirs n l ∧ p = root.join a) :
    Separate s root dests where
  ends p hp' s' q e hg h := by
    obtain ⟨a, dirs, n, l, ha, rfl⟩ := hd p hp'
    obtain ⟨r, -, -, hat⟩ := locate_join hl hg ha.ends ha.land h
    exact hat
  no_link p hp' s' d n target hg h := by
    obtain ⟨a, dirs, n, l, ha, rfl⟩ := hd p hp'
    obtain ⟨r, hr, e⟩ := h.join hl hg ha.ends ha.land
    rw [e]
    exact hl r hr _ target
  clear p hp' hn hc q hq := by
    have hfree : ¬(s.files.at? q ≠ none ∨ ∃ a : Path, a.UpTo root ∧ s.LeadsTo a q) :=
      fun h => hc ⟨hn, q, hq, h⟩
    refine ⟨Decidable.byContradiction fun h => hfree (.inl h), fun p' hp'' b hb hq' => ?_⟩
    obtain ⟨a, dirs, n, l, ha, rfl⟩ := hd p hp'
    obtain ⟨a', dirs', n', l', ha', rfl⟩ := hd p' hp''
    exact ha.not_leadsTo_of_onWay hl ha' hq hb (fun h => hfree (.inr ⟨b, h, hq'⟩)) hq'

end Lands

theorem project_not_mem_dirs (hi : i.Sound) : "PROJECT" ∉ k.dirs i := by
  have hg : i.group ≠ "PROJECT" := by
    rintro e
    have h : 'P' ∉ i.group.toList := hi.not_mem_group (by decide)
    simp [e] at h
  have hv := hi.version_ne (s := "PROJECT") (by decide)
  cases k <;> simp [dirs, hg.symm, hv.symm]

/-- The metadata of the project is kept apart from the artifacts. -/
theorem separate_project (hl : s.NoLinksBelow root)
    (hd : ∀ p ∈ dests, ∃ i k, Identity.Sound i ∧ p = root.join (ArtifactKind.relativePath k i)) :
    Separate s root (ProjectFile.path root :: dests) := by
  refine separate_of_lands (fun q => IsStub q ∨ q = ["PROJECT"]) hl (List.forall_mem_cons.2 ⟨?_, ?_⟩)
  · refine ⟨⟨"PROJECT"⟩, [], "PROJECT", [], ⟨ends_project, rfl, .inr rfl, fun ms hms => ?_⟩, rfl⟩
    obtain rfl := List.prefix_nil.1 hms
    exact ⟨[], rfl, by simp [IsStub]⟩
  · intro p hp
    obtain ⟨i, k, hi, rfl⟩ := hd p hp
    have h := lands_relativePath (k := k) hi
    refine ⟨_, _, _, _, ⟨h.ends, h.land, .inl h.ending, fun ms hms => ?_⟩, rfl⟩
    obtain ⟨l, hland, hstub⟩ := h.way ms hms
    refine ⟨l, hland, fun hor => hor.elim hstub ?_⟩
    rintro rfl
    obtain hn | hn := mem_of_land? hland List.mem_cons_self
    · cases hn
    · exact project_not_mem_dirs hi (hms.subset hn)

end ArtifactKind

end OperatorScaffold

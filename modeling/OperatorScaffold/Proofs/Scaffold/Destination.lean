import OperatorScaffold.Artifact
import OperatorScaffold.Proofs.Files.Leading
import OperatorScaffold.Proofs.Graph.Rule
import OperatorScaffold.Proofs.Text.Split
/-!
Where the artifacts of a resource lie below the root. A place tells the kind of its artifact and the
resource it belongs to.
-/

namespace OperatorScaffold

open FileTree Naming Workspace

/-- An identity as the resources of a well-formed workload have it. -/
structure Identity.Sound (i : Identity) : Prop where
  group : IsGroup i.group
  version : KubeVersion i.version
  kind : UpperCamel i.kind

namespace Identity.Sound

variable {i : Identity}

theorem not_mem_group (hi : i.Sound) {c : Char} (hc : ¬(isLower c ∨ isDigit c ∨ c = '-' ∨ c = '.')) :
    c ∉ i.group.toList :=
  fun h => hc (hi.group.2 c h)

theorem not_mem_version (hi : i.Sound) {c : Char} (hc : ¬isAlphanumeric c) : c ∉ i.version.toList :=
  fun h => hc (hi.version.alphanumeric c h)

theorem slash_not_mem (hi : i.Sound) : '/' ∉ (snakeCase i.kind).toList :=
  slash_not_mem_snakeCase fun h => absurd (hi.kind.alphanumeric _ h) (by decide)

theorem version_ne (hi : i.Sound) {s : String} (hs : s.toList.head? ≠ some 'v') : i.version ≠ s := by
  rintro rfl
  obtain ⟨major, rest, -, -, e⟩ := hi.version
  simp [e] at hs

end Identity.Sound

namespace ArtifactKind

variable {i j : Identity} {k : ArtifactKind}

/-- The directories that an artifact goes through below the root. -/
def dirs (k : ArtifactKind) (i : Identity) : List String :=
  match k with
  | .groupVersion => ["apis", i.group, i.version]
  | .apiTypes => ["apis", i.group, i.version]
  | .manifests => ["config", "manifests"]
  | .sample => ["config", "samples"]
  | .dependencies => ["internal", "dependencies"]
  | .controller => ["controllers", i.group]

def fileName (k : ArtifactKind) (i : Identity) : String :=
  match k with
  | .groupVersion => "groupversion_info.go"
  | .apiTypes => snakeCase i.kind ++ "_types.go"
  | .manifests => i.group ++ "_" ++ i.version ++ "_" ++ snakeCase i.kind ++ ".yaml"
  | .sample => i.group ++ "_" ++ i.version ++ "_" ++ snakeCase i.kind ++ ".yaml"
  | .dependencies => snakeCase i.kind ++ ".go"
  | .controller => snakeCase i.kind ++ "_controller.go"

theorem relativePath_eq : ∃ first rest, k.dirs i = first :: rest ∧
    k.relativePath i = Path.joinAll ⟨first⟩ (rest ++ [k.fileName i]) := by
  cases k <;> exact ⟨_, _, rfl, rfl⟩

theorem isPiece_dirs (hi : i.Sound) : ∀ d ∈ k.dirs i, Path.IsPiece d := by
  have hg : Path.IsPiece i.group := ⟨hi.group.1, hi.not_mem_group (by decide)⟩
  have hv : Path.IsPiece i.version := ⟨hi.version_ne (by decide), hi.not_mem_version (by decide)⟩
  have fixed {d : String} (h : decide (d ≠ "" ∧ '/' ∉ d.toList)) : Path.IsPiece d :=
    ⟨(of_decide_eq_true h).1, (of_decide_eq_true h).2⟩
  cases k <;> simp only [dirs, List.forall_mem_cons, List.not_mem_nil, false_imp_iff, implies_true, and_true]
  case groupVersion => exact ⟨fixed rfl, hg, hv⟩
  case apiTypes => exact ⟨fixed rfl, hg, hv⟩
  case manifests => exact ⟨fixed rfl, fixed rfl⟩
  case sample => exact ⟨fixed rfl, fixed rfl⟩
  case dependencies => exact ⟨fixed rfl, fixed rfl⟩
  case controller => exact ⟨fixed rfl, hg⟩

theorem slash_not_mem_fileName (hi : i.Sound) : '/' ∉ (k.fileName i).toList := by
  have hg : '/' ∉ i.group.toList := hi.not_mem_group (by decide)
  have hv : '/' ∉ i.version.toList := hi.not_mem_version (by decide)
  cases k <;> simp [fileName, hg, hv, hi.slash_not_mem]

theorem getLast?_fileName : ∃ c, (k.fileName i).toList.getLast? = some c ∧ (c = 'o' ∨ c = 'l') := by
  cases k <;> simp [fileName, List.getLast?_append, List.getLast?_cons]

theorem fileName_ne {s : String} (hs : ∀ c ∈ s.toList.getLast?, c ≠ 'o' ∧ c ≠ 'l') :
    k.fileName i ≠ s := by
  rintro rfl
  obtain ⟨c, hc, rfl | rfl⟩ := getLast?_fileName (k := k) (i := i)
  · exact absurd rfl (hs _ hc).1
  · exact absurd rfl (hs _ hc).2

theorem ends_relativePath (hi : i.Sound) : Ends (k.relativePath i) (k.dirs i) (k.fileName i) := by
  obtain ⟨first, rest, hd, hp⟩ := relativePath_eq (k := k) (i := i)
  have ⟨hfirst, hrest⟩ := List.forall_mem_cons.1 (hd ▸ isPiece_dirs (k := k) hi)
  rw [hd, hp]
  exact ends_joinAll hfirst hrest ⟨fileName_ne (by simp), slash_not_mem_fileName hi⟩
    ⟨fileName_ne (by simp), fileName_ne (by simp)⟩

/-- The directory of a group, which may be called as a step that goes nowhere or back. -/
def ofGroup (first group : String) : Place :=
  if group = "." then [first] else if group = ".." then [] else [first, group]

def folder (k : ArtifactKind) (i : Identity) : Place :=
  match k with
  | .groupVersion => ofGroup "apis" i.group ++ [i.version]
  | .apiTypes => ofGroup "apis" i.group ++ [i.version]
  | .manifests => ["config", "manifests"]
  | .sample => ["config", "samples"]
  | .dependencies => ["internal", "dependencies"]
  | .controller => ofGroup "controllers" i.group

def place (k : ArtifactKind) (i : Identity) : Place := k.folder i ++ [k.fileName i]

theorem land?_group {first group : String} (hf : first ≠ "." ∧ first ≠ "..") (rest : List String) :
    land? [] (first :: group :: rest) = land? (ofGroup first group) rest := by
  rw [land?, if_neg hf.1, if_neg hf.2, land?, ofGroup]
  split
  · rfl
  · split <;> simp

theorem land?_dirs (hi : i.Sound) : land? [] (k.dirs i) = some (k.folder i) := by
  have h1 := hi.version_ne (s := ".") (by decide)
  have h2 := hi.version_ne (s := "..") (by decide)
  cases k
  case groupVersion => rw [dirs, land?_group (by decide), land?, if_neg h1, if_neg h2, land?, folder]
  case apiTypes => rw [dirs, land?_group (by decide), land?, if_neg h1, if_neg h2, land?, folder]
  case manifests => simp [dirs, folder, land?]
  case sample => simp [dirs, folder, land?]
  case dependencies => simp [dirs, folder, land?]
  case controller => rw [dirs, land?_group (by decide), land?, folder]

theorem head?_ofGroup {first group : String} {tail : List String} {n : String}
    (h : (ofGroup first group ++ tail).head? = some n) : n = first ∨ tail.head? = some n := by
  unfold ofGroup at h
  split at h
  · exact .inl (by simpa [eq_comm] using h)
  · split at h
    · exact .inr h
    · exact .inl (by simpa [eq_comm] using h)

/-- The kind of an artifact in the directory of a group, told by the end of its file name. -/
def kindNamed (file : String) : ArtifactKind :=
  match file.toList.reverse[3]? with
  | some 'o' => .groupVersion
  | some 's' => .apiTypes
  | _ => .controller

/-- The kind of the artifact at a place. -/
def kindAt (q : Place) : ArtifactKind :=
  if q.head? = some "internal" then .dependencies
  else if q.head? = some "config" then if q[1]? = some "samples" then .sample else .manifests
  else kindNamed (q.getLast?.getD "")

theorem kindAt_ofGroup {first group : String} {tail : Place} (hf : first ≠ "internal" ∧ first ≠ "config")
    (ht : tail.head? ≠ some "internal" ∧ tail.head? ≠ some "config") :
    kindAt (ofGroup first group ++ tail) = kindNamed ((ofGroup first group ++ tail).getLast?.getD "") := by
  rw [kindAt, if_neg, if_neg]
  · intro h
    obtain h | h := head?_ofGroup h
    · exact hf.2 h.symm
    · exact ht.2 h
  · intro h
    obtain h | h := head?_ofGroup h
    · exact hf.1 h.symm
    · exact ht.1 h

theorem kindAt_place (hi : i.Sound) : kindAt (k.place i) = k := by
  have h1 := hi.version_ne (s := "internal") (by decide)
  have h2 := hi.version_ne (s := "config") (by decide)
  cases k
  case groupVersion =>
    rw [place, folder, List.append_assoc, kindAt_ofGroup (by decide) (by simp [h1, h2])]
    simp [fileName, kindNamed]
  case apiTypes =>
    rw [place, folder, List.append_assoc, kindAt_ofGroup (by decide) (by simp [h1, h2])]
    simp [fileName, kindNamed]
  case manifests => simp [place, folder, kindAt]
  case sample => simp [place, folder, kindAt]
  case dependencies => simp [place, folder, kindAt]
  case controller =>
    have h {s : String} (hs : '_' ∉ s.toList) : [fileName .controller i].head? ≠ some s := by
      intro h
      obtain rfl := Option.some.inj h
      simp [fileName] at hs
    rw [place, folder, kindAt_ofGroup (by decide) ⟨h (by decide), h (by decide)⟩]
    simp [fileName, kindNamed]

/-- The underscores of a flat file name part it in one way. -/
theorem flat_inj (hi : i.Sound) (hj : j.Sound) {suffix : String}
    (h : i.group ++ "_" ++ i.version ++ "_" ++ snakeCase i.kind ++ suffix =
      j.group ++ "_" ++ j.version ++ "_" ++ snakeCase j.kind ++ suffix) :
    i.group = j.group ∧ i.version = j.version ∧ snakeCase i.kind = snakeCase j.kind := by
  have hgroup {i : Identity} (hi : i.Sound) : '_' ∉ i.group.toList := hi.not_mem_group (by decide)
  have hversion {i : Identity} (hi : i.Sound) : '_' ∉ i.version.toList := hi.not_mem_version (by decide)
  have e := congrArg String.toList ((String.append_left_inj _).1 h)
  simp only [String.toList_append, List.append_assoc] at e
  obtain ⟨hg, e⟩ := Text.eq_of_parted (hgroup hi) (hgroup hj) e
  obtain ⟨hv, e⟩ := Text.eq_of_parted (hversion hi) (hversion hj) e
  exact ⟨String.toList_inj.1 hg, String.toList_inj.1 hv, String.toList_inj.1 e⟩

/-- The place of an artifact tells the name of the resource it belongs to. -/
theorem snakeCase_eq (hi : i.Sound) (hj : j.Sound) (hk : k ≠ .groupVersion)
    (h : k.place i = k.place j) : snakeCase i.kind = snakeCase j.kind := by
  have hfile : k.fileName i = k.fileName j := List.singleton_inj.1 (List.append_inj_right' h rfl)
  cases k
  case groupVersion => exact absurd rfl hk
  case apiTypes => exact (String.append_left_inj _).1 hfile
  case manifests => exact (flat_inj hi hj hfile).2.2
  case sample => exact (flat_inj hi hj hfile).2.2
  case dependencies => exact (String.append_left_inj _).1 hfile
  case controller => exact (String.append_left_inj _).1 hfile

theorem ofGroup_inj {first g g' : String} (h : ofGroup first g = ofGroup first g') : g = g' := by
  grind [ofGroup]

/-- The folder of a package tells the package. -/
theorem package_of_folder (h : ofGroup "apis" i.group ++ [i.version] = ofGroup "apis" j.group ++ [j.version]) :
    i.group = j.group ∧ i.version = j.version :=
  ⟨ofGroup_inj (List.append_inj_left' h rfl), List.singleton_inj.1 (List.append_inj_right' h rfl)⟩

/-- The place of the file of a package tells the package. -/
theorem package_eq (h : place .groupVersion i = place .groupVersion j) :
    i.group = j.group ∧ i.version = j.version :=
  package_of_folder (List.append_inj_left' h rfl)

/-- So does the place of an artifact, but for those in a folder that groups or versions share. -/
theorem package_of_place (hi : i.Sound) (hj : j.Sound) (hk : k ≠ .dependencies ∧ k ≠ .controller)
    (h : k.place i = k.place j) : i.group = j.group ∧ i.version = j.version := by
  have hfile : k.fileName i = k.fileName j := List.singleton_inj.1 (List.append_inj_right' h rfl)
  have hflat (hflat : i.group ++ "_" ++ i.version ++ "_" ++ snakeCase i.kind ++ ".yaml" =
      j.group ++ "_" ++ j.version ++ "_" ++ snakeCase j.kind ++ ".yaml") : i.group = j.group ∧ i.version = j.version := by
    obtain ⟨hg, hv, -⟩ := flat_inj hi hj hflat
    exact ⟨hg, hv⟩
  cases k
  case groupVersion => exact package_eq h
  case apiTypes => exact package_of_folder (List.append_inj_left' h rfl)
  case manifests => exact hflat hfile
  case sample => exact hflat hfile
  case dependencies => exact absurd rfl hk.1
  case controller => exact absurd rfl hk.2

end ArtifactKind

end OperatorScaffold

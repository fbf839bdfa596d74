import OperatorScaffold.Proofs.Naming.Spelling
import OperatorScaffold.Proofs.Scaffold.Distinct
import OperatorScaffold.Proofs.Schema.Normal
import OperatorScaffold.Proofs.Schema.Types
/-!
The names that Go sees: of the types and their fields, of packages, and of files. Kinds are checked to be
names, and what fields and groups are called is not.
-/

namespace OperatorScaffold

open Naming Text

namespace Go

/-- What Go takes a character for. Outside ASCII nothing is said of it. -/
structure Alphabet where
  isLetter : Char → Bool
  isDigit : Char → Bool
  isCapital : Char → Bool
  isLetter_of_isCapital : ∀ c, isCapital c → isLetter c
  isLetter_iff : ∀ c, c.toNat < 128 → (isLetter c ↔ isUpper c ∨ isLower c ∨ c = '_')
  isDigit_iff : ∀ c, c.toNat < 128 → (isDigit c ↔ Naming.isDigit c)
  isCapital_iff : ∀ c, c.toNat < 128 → (isCapital c ↔ isUpper c)

def keywords : List String :=
  ["break", "case", "chan", "const", "continue", "default", "defer", "else", "fallthrough", "for", "func", "go",
    "goto", "if", "import", "interface", "map", "package", "range", "return", "select", "struct", "switch", "type",
    "var"]

namespace Alphabet

structure IsIdentifier (A : Alphabet) (s : String) : Prop where
  word : ∃ c cs, s.toList = c :: cs ∧ A.isLetter c ∧ ∀ d ∈ cs, A.isLetter d ∨ A.isDigit d
  not_keyword : s ∉ keywords

/-- An identifier that other packages see. -/
structure IsExported (A : Alphabet) (s : String) : Prop extends A.IsIdentifier s where
  capital : ∃ c ∈ s.toList.head?, A.isCapital c

variable {A : Alphabet} {s t : String} {c : Char}

/-- A capital starts no keyword. -/
theorem not_mem_keywords {cs : List Char} (hs : s.toList = c :: cs) (hc : A.isCapital c) : s ∉ keywords := by
  have hsmall : ∀ k ∈ keywords, k.toList.head?.any fun c => c.toNat < 128 && !isUpper c := by decide +kernel
  intro hk
  obtain ⟨hascii, hlower⟩ : c.toNat < 128 ∧ isUpper c = false := by simpa [hs] using hsmall s hk
  exact absurd ((A.isCapital_iff c hascii).1 hc) (by simp [hlower])

theorem isExported_iff : A.IsExported s ↔
    ∃ c cs, s.toList = c :: cs ∧ A.isCapital c ∧ ∀ d ∈ cs, A.isLetter d ∨ A.isDigit d := by
  constructor
  · rintro ⟨⟨⟨c, cs, hs, -, hcs⟩, -⟩, d, hd, hcapital⟩
    rw [hs] at hd
    exact ⟨c, cs, hs, Option.some.inj hd ▸ hcapital, hcs⟩
  · rintro ⟨c, cs, hs, hc, hcs⟩
    exact ⟨⟨⟨c, cs, hs, A.isLetter_of_isCapital c hc, hcs⟩, not_mem_keywords hs hc⟩, c, by rw [hs]; rfl, hc⟩

theorem IsExported.append (hs : A.IsExported s) (ht : A.IsExported t) : A.IsExported (s ++ t) := by
  obtain ⟨c, cs, hs, hc, hcs⟩ := isExported_iff.1 hs
  obtain ⟨d, ds, ht, hd, hds⟩ := isExported_iff.1 ht
  refine isExported_iff.2 ⟨c, cs ++ d :: ds, by simp [hs, ht], hc, List.forall_mem_append.2 ⟨hcs, ?_⟩⟩
  exact List.forall_mem_cons.2 ⟨.inl (A.isLetter_of_isCapital d hd), hds⟩

theorem isLetter_or_isDigit_of_isAlphanumeric (h : isAlphanumeric c) : A.isLetter c ∨ A.isDigit c := by
  have hascii := toNat_lt_of_isAlphanumeric h
  rw [A.isLetter_iff c hascii, A.isDigit_iff c hascii]
  simp only [isAlphanumeric, Bool.or_eq_true] at h
  tauto

theorem isExported_of_upperCamel (h : UpperCamel s) : A.IsExported s := by
  obtain ⟨c, cs, hs, hc, hcs⟩ := h
  have hascii : c.toNat < 128 := toNat_lt_of_isAlphanumeric (isAlphanumeric_of_isUpper hc)
  exact isExported_iff.2 ⟨c, cs, hs, (A.isCapital_iff c hascii).2 hc,
    fun d hd => isLetter_or_isDigit_of_isAlphanumeric (hcs d hd)⟩

/-- Letters and digits are a word if the first is a letter. -/
theorem word_iff (h : ∀ c ∈ s.toList, isAlphanumeric c) :
    (∃ c cs, s.toList = c :: cs ∧ A.isLetter c ∧ ∀ d ∈ cs, A.isLetter d ∨ A.isDigit d) ↔
      ∃ c ∈ s.toList.head?, isLower c ∨ isUpper c := by
  cases hs : s.toList with
  | nil => simp
  | cons c cs =>
    rw [hs] at h
    obtain ⟨hc, hcs⟩ := List.forall_mem_cons.1 h
    have hne : c ≠ '_' := by
      rintro rfl
      exact absurd hc (by decide)
    have hletter : A.isLetter c ↔ isLower c ∨ isUpper c := by
      rw [A.isLetter_iff c (toNat_lt_of_isAlphanumeric hc)]
      tauto
    constructor
    · rintro ⟨_, _, he, hc, -⟩
      obtain ⟨rfl, rfl⟩ := List.cons.inj he
      exact ⟨_, rfl, hletter.1 hc⟩
    · rintro ⟨_, he, hc⟩
      obtain rfl := Option.some.inj he
      exact ⟨_, cs, rfl, hletter.2 hc, fun d hd => isLetter_or_isDigit_of_isAlphanumeric (hcs d hd)⟩

theorem not_mem_keywords_of_isDigit (hc : c ∈ s.toList) (hd : Naming.isDigit c) : s ∉ keywords := by
  have hkeywords : ∀ k ∈ keywords, k.toList.all (!Naming.isDigit ·) := by decide +kernel
  intro hk
  have hno := List.all_eq_true.1 (hkeywords s hk) c hc
  rw [hd] at hno
  cases hno

/-- In ASCII and without underscores there is one form of exported names. -/
theorem isExported_iff_upperCamel (h : ∀ c ∈ s.toList, c.toNat < 128 ∧ c ≠ '_') : A.IsExported s ↔ UpperCamel s := by
  refine ⟨fun hs => ?_, isExported_of_upperCamel⟩
  obtain ⟨c, cs, hs, hc, hcs⟩ := isExported_iff.1 hs
  rw [hs] at h
  obtain ⟨hc', hcs'⟩ := List.forall_mem_cons.1 h
  refine ⟨c, cs, hs, (A.isCapital_iff c hc'.1).1 hc, fun d hd => ?_⟩
  obtain ⟨hascii, hne⟩ := hcs' d hd
  have hd := hcs d hd
  rw [A.isLetter_iff d hascii, A.isDigit_iff d hascii] at hd
  simp only [isAlphanumeric, Bool.or_eq_true]
  tauto

theorem isExported_upperCamel_iff (h : ∀ c ∈ s.toList, c.toNat < 128) :
    A.IsExported (upperCamel s) ↔ Spellable s := by
  rw [isExported_iff_upperCamel, upperCamel_upperCamel_iff h]
  rw [upperCamel, String.toList_ofList]
  exact ascii_of_mem_upperCamelChars h

end Alphabet

end Go

namespace Schema

variable {A : Go.Alphabet} {kind : String} {f : Field} {fs : List Field}

theorem mem_nestedTypes_of_mem (scope : String) (hf : f ∈ fs) (hk : f.kind = .object) :
    ∀ t ∈ objectType scope f :: nestedTypes (scope ++ upperCamel f.name) f.fields, t ∈ nestedTypes scope fs := by
  intro t ht
  induction fs with
  | nil => cases hf
  | cons g fs ih =>
    obtain ⟨name, kind, default, required, description, inner⟩ := g
    unfold nestedTypes
    dsimp only
    obtain rfl | hf := List.mem_cons.1 hf
    · obtain rfl : kind = .object := hk
      exact List.mem_append_left _ ht
    · exact List.mem_append_right _ (ih hf)

/-- A field at any depth is one of the fields of a type. -/
theorem exists_type_of_inside (scope : String) (hf : f.Inside fs)
    (hobject : ∀ g : Field, g.Inside fs → g.kind ≠ .object → g.fields = []) :
    f ∈ fs ∨ ∃ t ∈ nestedTypes scope fs, ∃ inner, goField inner f ∈ t.fields := by
  induction hf generalizing scope with
  | here hf => exact .inl hf
  | @deeper f' g fs hf hg ih =>
    have hk : f'.kind = .object := by
      by_contra hk
      have hnil := hobject f' (.here hf) hk
      rw [hnil] at hg
      cases hg <;> contradiction
    have hnested := mem_nestedTypes_of_mem scope hf hk
    refine .inr ?_
    obtain h | ⟨t, ht, h⟩ := ih (scope ++ upperCamel f'.name) fun g' hg' => hobject g' (.deeper hf hg')
    · exact ⟨objectType scope f', hnested _ List.mem_cons_self, _, List.mem_map_of_mem h⟩
    · exact ⟨t, hnested t (List.mem_cons_of_mem _ ht), h⟩

/-- The names of types and their fields are exported if and only if all fields are spelled so that they
are, at any depth. -/
theorem isExported_goTypes_iff (hkind : UpperCamel kind)
    (hobject : ∀ g : Field, g.Inside fs → g.kind ≠ .object → g.fields = []) :
    (∀ t ∈ goTypes kind fs, A.IsExported t.name ∧ ∀ g ∈ t.fields, A.IsExported g.name) ↔
      ∀ f : Field, f.Inside fs → A.IsExported (upperCamel f.name) := by
  have hkind : A.IsExported kind := Go.Alphabet.isExported_of_upperCamel hkind
  constructor
  · intro h f hf
    obtain ⟨hspec, hnested⟩ := List.forall_mem_cons.1 h
    obtain hf | ⟨t, ht, inner, hg⟩ := exists_type_of_inside kind hf hobject
    · exact hspec.2 (goField kind f) (List.mem_map_of_mem hf)
    · exact (hnested t ht).2 _ hg
  · intro h
    refine List.forall_mem_cons.2 ⟨⟨?_, List.forall_mem_map.2 fun f hf => h f (.here hf)⟩, ?_⟩
    · exact hkind.append (Go.Alphabet.isExported_of_upperCamel (isUpperCamel_iff.1 (by decide)))
    · refine forall_mem_nestedTypes hkind (fun scope f hs hf => hs.append (h f hf)) fun scope f hs hf => ?_
      exact ⟨hs.append (h f hf), List.forall_mem_map.2 fun g hg => h g (hf.trans (.here hg))⟩

end Schema

namespace Identity

variable {A : Go.Alphabet} {i : Identity}

theorem not_isUpper_of_mem_group (hg : IsGroup i.group) {c : Char} (hc : c ∈ i.group.toList) : ¬isUpper c := by
  obtain h | h | rfl | rfl := hg.2 c hc
  · intro hu
    simp only [isLower, isUpper, Bool.and_eq_true, decide_eq_true_eq] at h hu
    exact absurd (le_trans h.1 hu.2) (by decide)
  · intro hu
    simp only [isDigit, isUpper, Bool.and_eq_true, decide_eq_true_eq] at h hu
    exact absurd (le_trans hu.1 h.2) (by decide)
  · decide
  · decide

theorem toList_package (hg : IsGroup i.group) : i.package.toList = i.group.toList.filter isAlphanumeric := by
  rw [package, lowerAscii, String.toList_ofList, String.toList_ofList]
  have hsame : ∀ c ∈ i.group.toList.filter isAlphanumeric, c.toLower = id c := fun c hc => by
    obtain ⟨hmem, hc⟩ := List.mem_filter.1 hc
    exact toLower_of_not_isUpper hc (not_isUpper_of_mem_group hg hmem)
  rw [List.map_congr_left hsame, List.map_id]

theorem head?_package (hg : IsGroup i.group) : i.package.toList.head? = i.group.toList.find? isAlphanumeric := by
  rw [toList_package hg, List.head?_filter]

theorem isAlphanumeric_of_mem_package (hg : IsGroup i.group) : ∀ c ∈ i.package.toList, isAlphanumeric c := by
  rw [toList_package hg]
  exact fun c hc => (List.mem_filter.1 hc).2

theorem isLower_of_mem_find? (hg : IsGroup i.group) {c : Char} (hc : c ∈ i.group.toList.find? isAlphanumeric) :
    (isLower c ∨ isUpper c) ↔ isLower c :=
  or_iff_left (not_isUpper_of_mem_group hg (List.mem_of_find?_eq_some hc))

/-- The name of a package starts with the first letter or digit of its group. -/
theorem isIdentifier_package_iff (hg : IsGroup i.group) : A.IsIdentifier i.package ↔
    (∃ c ∈ i.group.toList.find? isAlphanumeric, isLower c) ∧ i.package ∉ Go.keywords := by
  have hword := Go.Alphabet.word_iff (A := A) (isAlphanumeric_of_mem_package hg)
  rw [head?_package hg] at hword
  have hlower : (∃ c ∈ i.group.toList.find? isAlphanumeric, isLower c ∨ isUpper c) ↔
      ∃ c ∈ i.group.toList.find? isAlphanumeric, isLower c :=
    exists_congr fun c => and_congr_right fun hc => isLower_of_mem_find? hg hc
  rw [← hlower, ← hword]
  exact ⟨fun h => ⟨h.word, h.not_keyword⟩, fun h => ⟨h.1, h.2⟩⟩

/-- A version stands behind the name of the package, so that the alias is no keyword. -/
theorem isIdentifier_apiAlias_iff (hg : IsGroup i.group) (hv : KubeVersion i.version) : A.IsIdentifier i.apiAlias ↔
    ∀ c ∈ i.group.toList.find? isAlphanumeric, isLower c := by
  have hchars : ∀ c ∈ i.apiAlias.toList, isAlphanumeric c := by
    rw [apiAlias, String.toList_append]
    exact List.forall_mem_append.2 ⟨isAlphanumeric_of_mem_package hg, hv.alphanumeric⟩
  have hkeyword : i.apiAlias ∉ Go.keywords := by
    obtain ⟨major, rest, ⟨d, ds, rfl, -, hd⟩, -, hversion⟩ := hv
    refine Go.Alphabet.not_mem_keywords_of_isDigit (c := d) ?_ (hd d List.mem_cons_self)
    simp [apiAlias, hversion]
  have hhead : i.apiAlias.toList.head? = (i.group.toList.find? isAlphanumeric).or (some 'v') := by
    obtain ⟨major, rest, -, -, hversion⟩ := hv
    rw [apiAlias, String.toList_append, List.head?_append, head?_package hg, hversion]
    rfl
  have hword : A.IsIdentifier i.apiAlias ↔ ∃ c ∈ i.apiAlias.toList.head?, isLower c ∨ isUpper c := by
    rw [← Go.Alphabet.word_iff hchars]
    exact ⟨fun h => h.word, fun h => ⟨h, hkeyword⟩⟩
  rw [hword, hhead]
  cases hfind : i.group.toList.find? isAlphanumeric with
  | none => exact iff_of_true ⟨'v', rfl, by decide⟩ nofun
  | some c =>
    have hc := isLower_of_mem_find? hg hfind
    simp [hc]

end Identity

/-- A file that is built for tests only. -/
def Go.IsTestFile (p : Path) : Prop := ∃ n, p.fileName? = some n ∧ "_test.go".toList <:+ n.toList

namespace ArtifactKind

variable {i : Identity} {k : ArtifactKind}

theorem not_suffix_append {cs ds xs : List Char} (h : ¬cs <:+ ds ∧ ¬ds <:+ cs) : ¬cs <:+ xs ++ ds := fun hs =>
  (List.suffix_or_suffix_of_suffix hs (List.suffix_append xs ds)).elim h.1 h.2

theorem test_fileName_iff (hi : i.Sound) :
    "_test.go".toList <:+ (k.fileName i).toList ↔ k = .dependencies ∧ EndsWithTest i.kind := by
  cases k with
  | dependencies =>
    have hword : "_test.go".toList = "_test".toList ++ ".go".toList := by decide
    rw [fileName, String.toList_append, hword, List.suffix_append_self_iff,
      snakeCase_ends_with_test_iff hi.kind.alphanumeric]
    simp
  | groupVersion =>
    refine iff_of_false ?_ (by simp)
    rw [fileName]
    decide
  | apiTypes | manifests | sample | controller =>
    refine iff_of_false ?_ (by simp)
    rw [fileName, String.toList_append]
    exact not_suffix_append (by decide)

end ArtifactKind

namespace Workload

open ArtifactKind Schema

variable {w : Workload} {space : Workspace} {path : Path} {order : List Resource}

theorem fileName?_destination (hs : Rule.shapes.Holds w) (root : Path) {x : Resource × ArtifactKind}
    (hx : x.1 ∈ w.resources) :
    (w.artifactOf root x).destination.fileName? = some (x.2.fileName (.ofResource w x.1)) := by
  have hi := sound_ofResource hs hx
  obtain ⟨hrel, hdot⟩ := relative_pathOf hs hx
  have hparts : (w.artifactOf root x).destination.parts.getLast? = some (x.2.fileName (.ofResource w x.1)) := by
    change (root.join (w.pathOf x)).parts.getLast? = _
    rw [Path.parts_join hrel hdot, List.getLast?_append, pathOf, getLast?_parts hi]
    rfl
  have hroot : x.2.fileName (.ofResource w x.1) ≠ "/" := fileName_ne (by simp)
  have hhere : x.2.fileName (.ofResource w x.1) ≠ "." := fileName_ne (by simp)
  have hup : x.2.fileName (.ofResource w x.1) ≠ ".." := fileName_ne (by simp)
  simp [Path.fileName?, hparts, hroot, hhere, hup]

/-- Go takes the names of types and fields for exported ones if and only if it does so for the spelling of
each field, which in ASCII is one for `Spellable` names. The names of packages and their aliases are
identifiers if and only if groups start so, and the only files that are left out of their packages are
those of the readiness of a kind whose last word is `Test`. -/
theorem go_names_are_usable_iff (A : Go.Alphabet) (hp : parse space path = .ok w) (hv : w.validate = .ok order) :
    (∀ r ∈ w.resources,
      ((∀ t ∈ goTypes r.kind r.fields, A.IsExported t.name ∧ ∀ g ∈ t.fields, A.IsExported g.name) ↔
        ∀ f : Field, f.Inside r.fields → A.IsExported (upperCamel f.name)) ∧
      (∀ f : Field, f.Inside r.fields → (∀ c ∈ f.name.toList, c.toNat < 128) →
        (A.IsExported (upperCamel f.name) ↔ Spellable f.name)) ∧
      (A.IsIdentifier (Identity.ofResource w r).package ↔
        (∃ c ∈ r.group.toList.find? isAlphanumeric, isLower c) ∧ (Identity.ofResource w r).package ∉ Go.keywords) ∧
      (A.IsIdentifier (Identity.ofResource w r).apiAlias ↔ ∀ c ∈ r.group.toList.find? isAlphanumeric, isLower c)) ∧
    ∀ g o s s' report, w.scaffold order g o s = (.ok report, s') → ∀ record ∈ report.records,
      (Go.IsTestFile record.path ↔
        record.kind = .dependencies ∧ ∃ r ∈ w.resources, r.name = record.resource ∧ EndsWithTest r.kind) := by
  have hrules := (decides_validate w).ok order hv
  have hshaped : ∀ r ∈ w.resources, r.WellShaped := (hrules .shapes).1
  refine ⟨fun r hr => ?_, fun g o s s' report h record hrecord => ?_⟩
  · have hs := hshaped r hr
    obtain ⟨ds, hd⟩ := described_of_mem hp hr
    obtain ⟨doc, name, spec, hfields, -, -⟩ := hd.read
    have hobject : ∀ f : Field, f.Inside r.fields → f.kind ≠ .object → f.fields = [] := fun f hf => by
      obtain ⟨d, hdeclared⟩ := Field.exists_declared hf hfields
      obtain ⟨here, hread⟩ := hdeclared.read hfields
      exact (Field.normal_of_read hread).object
    refine ⟨isExported_goTypes_iff hs.kind hobject, fun f _ => Go.Alphabet.isExported_upperCamel_iff, ?_, ?_⟩
    · exact Identity.isIdentifier_package_iff (i := .ofResource w r) hs.group
    · exact Identity.isIdentifier_apiAlias_iff (i := .ofResource w r) hs.group hs.version
  · have hmap := map_records_of_scaffold (f := fun record => (record.resource, record.kind, record.path))
      (k := fun x => (x.1.name, x.2, (w.artifactOf o.output x).destination)) (fun _ _ => rfl) h
    obtain ⟨x, hx, he⟩ := List.mem_map.1 (hmap ▸ List.mem_map_of_mem hrecord)
    obtain ⟨hresource, he⟩ := Prod.mk.inj he
    obtain ⟨hkind, hpath⟩ := Prod.mk.inj he
    have hmem : x.1 ∈ w.resources := (nodup_of_validate hv).2 x.1 (mem_plan hx).1
    have htest : Go.IsTestFile record.path ↔ x.2 = .dependencies ∧ EndsWithTest x.1.kind := by
      rw [Go.IsTestFile, ← hpath, fileName?_destination (hrules .shapes) o.output hmem]
      simp only [Option.some.injEq, exists_eq_left']
      exact test_fileName_iff (sound_ofResource (hrules .shapes) hmem)
    rw [htest, ← hkind, ← hresource]
    refine and_congr_right fun _ => ⟨fun hends => ⟨x.1, hmem, rfl, hends⟩, fun ⟨r, hr, hname, hends⟩ => ?_⟩
    rwa [← List.inj_on_of_nodup_map (hrules .names).1 hr hmem hname]

end Workload

/-- The letters and digits of ASCII, and no others. -/
def Go.Alphabet.ascii : Go.Alphabet where
  isLetter c := isUpper c || isLower c || c == '_'
  isDigit := Naming.isDigit
  isCapital := isUpper
  isLetter_of_isCapital c hc := by simp [hc]
  isLetter_iff c _ := by simp [or_assoc]
  isDigit_iff _ _ := Iff.rfl
  isCapital_iff _ _ := Iff.rfl

namespace LoadTest

/-- A field and a group that start with a digit, and a kind whose last word is `Test`. -/
def document : String :=
  "\x7b\"apiVersion\":\"opforge.dev/v1alpha1\",\"kind\":\"StandaloneWorkload\",\"name\":\"load\",\"spec\":\x7b" ++
    "\"repository\":\"r\",\"api\":\x7b\"group\":\"2fa\",\"version\":\"v1\",\"kind\":\"LoadTest\"\x7d,\"fields\":[\x7b" ++
    "\"name\":\"1st\",\"type\":\"string\"\x7d]\x7d\x7d"

def documents : Workspace := ⟨⟨[(["w.json"], .file (.text document) 0o644)]⟩, [], []⟩

def registry : Template.Registry := ⟨[("dependencies/check", fun _ => .ok "package dependencies")]⟩

def options : ScaffoldOptions := ⟨⟨"out"⟩, ⟨false, false⟩, ⟨false, false, false, true, false⟩, none⟩

/-- The document is accepted, its names are not those of Go, and the file of its predicate is built for
tests only. -/
theorem go_names_are_not_usable : ∃ w order r, Workload.parse documents ⟨"w.json"⟩ = .ok w ∧
    w.validate = .ok order ∧ r ∈ w.resources ∧
    ¬(∀ t ∈ Schema.goTypes r.kind r.fields, Go.Alphabet.ascii.IsExported t.name ∧
      ∀ g ∈ t.fields, Go.Alphabet.ascii.IsExported g.name) ∧
    ¬Go.Alphabet.ascii.IsIdentifier (Identity.ofResource w r).package ∧
    ¬Go.Alphabet.ascii.IsIdentifier (Identity.ofResource w r).apiAlias ∧
    ∃ report s', w.scaffold order registry options ⟨⟨[]⟩, [], []⟩ = (.ok report, s') ∧
      ∃ record ∈ report.records, Go.IsTestFile record.path := by
  have hrun : ((Workload.ofText? "/w.json" document).bind Except.toOption).any fun w =>
      (w.resources.any fun r => r.name = "load" ∧ r.group = "2fa" ∧ r.kind = "LoadTest" ∧
        r.fields.any (·.name = "1st")) &&
      (w.trial? registry options ⟨⟨[]⟩, [], []⟩).any fun report =>
        report.records.any fun record => record.kind = .dependencies ∧ record.resource = "load" := by
    have htext : document.toList = _ :=
      Workload.toList_append_eq (Workload.toList_append_eq String.toList_ofList String.toList_ofList)
        String.toList_ofList
    rw [Workload.ofText?, Json.read, htext]
    decide +kernel
  have hhere : documents.canonical ⟨"w.json"⟩ = .ok ⟨"/w.json"⟩ := rfl
  obtain ⟨w, hw, hrun⟩ := Workload.exists_parse_of_any hhere rfl (by decide) hrun
  obtain ⟨hresource, htrial⟩ := Bool.and_eq_true_iff.1 hrun
  obtain ⟨r, hr, hresource⟩ := List.any_eq_true.1 hresource
  obtain ⟨hname, hgroup, hkind, hfield⟩ := of_decide_eq_true hresource
  obtain ⟨f, hf, hfname⟩ := List.any_eq_true.1 hfield
  obtain ⟨order, report, s', hv, h, hreport⟩ := Workload.exists_of_trial? htrial
  obtain ⟨record, hrecord, htest⟩ := List.any_eq_true.1 hreport
  obtain ⟨hdependencies, hfrom⟩ := of_decide_eq_true htest
  obtain ⟨hnames, hfiles⟩ := Workload.go_names_are_usable_iff Go.Alphabet.ascii hw hv
  obtain ⟨htypes, hspelled, hpackage, halias⟩ := hnames r hr
  have hfind : r.group.toList.find? isAlphanumeric = some '2' := by
    rw [hgroup]
    decide
  refine ⟨w, order, r, hw, hv, hr, fun hexported => ?_, fun hp => ?_, fun ha => ?_, report, s', h, record, hrecord, ?_⟩
  · have hascii : ∀ c ∈ f.name.toList, c.toNat < 128 := by
      simp [of_decide_eq_true hfname]
    have hfirst : f.name.toList.find? (!isNameGap ·) = some '1' := by
      rw [of_decide_eq_true hfname]
      decide
    obtain ⟨⟨c, hc, hletter⟩, -⟩ := (hspelled f (.here hf) hascii).1 (htypes.1 hexported f (.here hf))
    rw [hfirst] at hc
    obtain rfl := Option.some.inj hc
    exact absurd hletter (by decide)
  · obtain ⟨⟨c, hc, hlower⟩, -⟩ := hpackage.1 hp
    rw [hfind] at hc
    obtain rfl := Option.some.inj hc
    exact absurd hlower (by decide)
  · exact absurd (halias.1 ha '2' hfind) (by decide)
  · refine (hfiles _ _ _ _ _ h record hrecord).2 ⟨hdependencies, r, hr, hname.trans hfrom.symm, ?_⟩
    exact .inl ⟨"Load", by decide, hkind⟩

end LoadTest

end OperatorScaffold

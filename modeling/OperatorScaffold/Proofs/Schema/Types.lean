import OperatorScaffold.Proofs.Schema.Built
import OperatorScaffold.Proofs.Schema.Quiet
import OperatorScaffold.Proofs.Template.Line
/-!
The Go types of a specification. Each object has one, named for the path that leads to it, and paths that
differ can be spelled alike. With names of one line in the document all their texts are of one line.
-/

namespace OperatorScaffold

open Text Naming

structure GoField.OneLined (g : GoField) : Prop where
  name : OneLine g.name
  type : OneLine g.type
  jsonTag : OneLine g.jsonTag
  comments : ∀ c ∈ g.comments, OneLine c

structure GoType.OneLined (t : GoType) : Prop where
  name : OneLine t.name
  doc : OneLine t.doc
  fields : ∀ g ∈ t.fields, g.OneLined

theorem Field.Inside.trans {f g : Field} {fs : List Field} (hf : f.Inside fs) (hg : g.Inside f.fields) :
    g.Inside fs := by
  induction hf with
  | here hf => exact .deeper hf hg
  | deeper hf _ ih => exact .deeper hf (ih hg)

namespace Schema

/-- The objects among the fields at any depth, each by the names that lead to it. -/
def objectPaths : List Field → List (List String)
  | [] => []
  | .mk name kind _ _ _ inner :: fs =>
    (if kind = .object then [name] :: (objectPaths inner).map (name :: ·) else []) ++ objectPaths fs

def spelling (path : List String) : String := String.join (path.map upperCamel)

variable {fs : List Field} {p : List String}

theorem spelling_cons (name : String) (p : List String) : spelling (name :: p) = upperCamel name ++ spelling p :=
  String.join_cons

theorem names_nestedTypes : ∀ (scope : String) (fs : List Field),
    (nestedTypes scope fs).map (·.name) = (objectPaths fs).map (scope ++ spelling ·)
  | _, [] => by simp [nestedTypes, objectPaths]
  | scope, .mk name kind default required description inner :: fs => by
    have hinner := names_nestedTypes (scope ++ upperCamel name) inner
    have hfs := names_nestedTypes scope fs
    have hown : spelling [name] = upperCamel name := by simp [spelling]
    unfold nestedTypes objectPaths
    dsimp only
    rw [List.map_append, List.map_append, hfs]
    congr 1
    cases kind with
    | object =>
      simp only [if_true, List.map_cons, List.map_map, hinner, hown, Function.comp_def, spelling_cons,
        String.append_assoc]
    | _ => rfl

theorem mem_objectPaths_of_mem {f : Field} (hf : f ∈ fs) (hk : f.kind = .object) : [f.name] ∈ objectPaths fs := by
  induction fs with
  | nil => cases hf
  | cons g fs ih =>
    obtain ⟨name, kind, default, required, description, inner⟩ := g
    rw [objectPaths]
    obtain rfl | hf := List.mem_cons.1 hf
    · rw [if_pos hk]
      exact List.mem_append_left _ List.mem_cons_self
    · exact List.mem_append_right _ (ih hf)

theorem head_of_mem_objectPaths : ∀ {fs : List Field} {p : List String}, p ∈ objectPaths fs →
    ∃ name q, p = name :: q ∧ name ∈ fs.map (·.name)
  | [], _, h => by simp [objectPaths] at h
  | .mk name kind default required description inner :: fs, p, h => by
    rw [objectPaths] at h
    obtain h | h := List.mem_append.1 h
    · split at h
      next =>
        obtain rfl | h := List.mem_cons.1 h
        · exact ⟨name, [], rfl, List.mem_cons_self⟩
        · obtain ⟨q, -, rfl⟩ := List.mem_map.1 h
          exact ⟨name, q, rfl, List.mem_cons_self⟩
      next => cases h
    · obtain ⟨n, q, rfl, hn⟩ := head_of_mem_objectPaths h
      exact ⟨n, q, rfl, List.mem_cons_of_mem name hn⟩

/-- No object has two paths, as no two fields of an object have one name. -/
theorem nodup_objectPaths : ∀ {fs : List Field}, (fs.map (·.name)).Nodup → (∀ f ∈ fs, f.Built) →
    (objectPaths fs).Nodup
  | [], _, _ => by simp [objectPaths]
  | .mk name kind default required description inner :: fs, hn, hb => by
    have ⟨hname, hn⟩ := List.nodup_cons.1 hn
    have ⟨hf, hfs⟩ := List.forall_mem_cons.1 hb
    have hinner := nodup_objectPaths hf.nodup hf.inner
    rw [objectPaths, List.nodup_append]
    refine ⟨?_, nodup_objectPaths hn hfs, fun p hp q hq he => ?_⟩
    · split
      next =>
        refine List.nodup_cons.2 ⟨fun h => ?_, hinner.map (List.cons_injective)⟩
        obtain ⟨q, hq, he⟩ := List.mem_map.1 h
        obtain ⟨_, _, rfl, -⟩ := head_of_mem_objectPaths hq
        cases he
      next => exact List.nodup_nil
    · obtain ⟨n, r, rfl, hm⟩ := head_of_mem_objectPaths hq
      split at hp
      next =>
        obtain rfl | hp := List.mem_cons.1 hp
        · cases he
          exact hname hm
        · obtain ⟨_, -, rfl⟩ := List.mem_map.1 hp
          cases he
          exact hname hm
      next => cases hp

/-- The type of an object that is found where the types start with `scope`. -/
def objectType (scope : String) (f : Field) : GoType :=
  let type := scope ++ upperCamel f.name
  ⟨type, s!"is the {f.name} section of {scope}.", f.fields.map (goField type)⟩

/-- What is known of the types of all objects is known if it is known of one object, wherever it is found. -/
theorem forall_mem_nestedTypes {S : String → Prop} {P : GoType → Prop} : ∀ {scope : String} {fs : List Field},
    S scope → (∀ scope (f : Field), S scope → f.Inside fs → S (scope ++ upperCamel f.name)) →
    (∀ scope (f : Field), S scope → f.Inside fs → P (objectType scope f)) → ∀ t ∈ nestedTypes scope fs, P t
  | _, [], _, _, _ => by simp [nestedTypes]
  | scope, .mk name kind default required description inner :: fs, hs, hstep, hP => by
    have hfs := forall_mem_nestedTypes hs (fun s f h hf => hstep s f h (hf.tail _))
      (fun s f h hf => hP s f h (hf.tail _))
    have hinner := forall_mem_nestedTypes (hstep scope _ hs (.here List.mem_cons_self))
      (fun s f h hf => hstep s f h (.deeper List.mem_cons_self hf))
      (fun s f h hf => hP s f h (.deeper List.mem_cons_self hf))
    have hown := hP scope _ hs (.here List.mem_cons_self)
    unfold nestedTypes
    dsimp only
    refine List.forall_mem_append.2 ⟨?_, hfs⟩
    split
    next => exact List.forall_mem_cons.2 ⟨hown, hinner⟩
    next => exact List.forall_mem_nil _

variable {s : String} {f : Field}

theorem oneLine_trimEnd (h : OneLine s) : OneLine (trimEnd s) := by
  obtain ⟨bs, -, he⟩ := exists_toList_dropEnd isBlank s
  exact fun hfeed => h (he ▸ List.mem_append_left bs hfeed)

theorem forall_mem_comments {P : String → Prop}
    (hlines : ∀ t, f.description = some t → ∀ l ∈ lines t, P (trimEnd l))
    (hrequired : P "+kubebuilder:validation:Required") (hoptional : P "+kubebuilder:validation:Optional")
    (hdefault : ∀ d : Json, P ("+kubebuilder:default=" ++ d.render)) : ∀ c ∈ comments f, P c := by
  simp only [comments, List.append_eq, List.mem_append, List.mem_map, List.mem_singleton]
  rintro c ((⟨l, hl, rfl⟩ | rfl) | ⟨d, -, rfl⟩)
  · cases hf : f.description with
    | none => simp [hf] at hl
    | some t =>
      rw [hf] at hl
      exact hlines t hf l hl
  · split
    next => exact hrequired
    next => exact hoptional
  · exact hdefault d

theorem oneLined_goField (hs : OneLine s) (h : OneLine f.name) : (goField s f).OneLined where
  name := oneLine_upperCamel h
  type := by
    show OneLine (goFieldType s f)
    unfold goFieldType
    split
    iterate 4 decide
    exact oneLine_append.2 ⟨hs, oneLine_upperCamel h⟩
  jsonTag := by
    show OneLine (jsonTag f)
    unfold jsonTag
    split
    · exact h
    · exact oneLine_append.2 ⟨h, by decide⟩
  comments := by
    show ∀ c ∈ comments f, OneLine c
    refine forall_mem_comments (fun t _ l hl => ?_) (by decide) (by decide) fun d => ?_
    · exact oneLine_trimEnd (oneLine_of_mem_lines hl)
    · exact oneLine_append.2 ⟨by decide, Json.oneLine_render d⟩

theorem oneLined_objectType (hs : OneLine s) (hf : OneLine f.name) (h : ∀ g ∈ f.fields, OneLine g.name) :
    (objectType s f).OneLined where
  name := oneLine_append.2 ⟨hs, oneLine_upperCamel hf⟩
  doc := by
    simp +decide [objectType, toString_text, hs, hf]
  fields := List.forall_mem_map.2 fun g hg =>
    oneLined_goField (oneLine_append.2 ⟨hs, oneLine_upperCamel hf⟩) (h g hg)

theorem oneLined_goTypes (hs : OneLine s) (h : ∀ f : Field, f.Inside fs → OneLine f.name) :
    ∀ t ∈ goTypes s fs, t.OneLined := by
  refine List.forall_mem_cons.2 ⟨⟨oneLine_append.2 ⟨hs, by decide⟩, ?_, ?_⟩, ?_⟩
  · simp +decide [toString_text, hs]
  · exact List.forall_mem_map.2 fun g hg => oneLined_goField hs (h g (.here hg))
  · have hnames (g : Field) (hg : g.Inside fs) : ∀ g' ∈ g.fields, OneLine g'.name := fun g' hg' =>
      h g' (hg.trans (.here hg'))
    exact forall_mem_nestedTypes hs
      (fun scope g hscope hg => oneLine_append.2 ⟨hscope, oneLine_upperCamel (h g hg)⟩)
      (fun scope g hscope hg => oneLined_objectType hscope (h g hg) (hnames g hg))

end Schema

end OperatorScaffold

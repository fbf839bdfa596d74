import OperatorScaffold.Proofs.Naming
import OperatorScaffold.Proofs.Schema.Defaults
import OperatorScaffold.Proofs.Schema.Types
/-!
The Go types and the schema of the same fields. The types are a list and refer to each other by names, the
schema is a tree; followed from the type of the specification they tell of the same properties, at every
depth.
-/

namespace OperatorScaffold

open scoped List

open Json Naming

theorem Field.not_inside_nil {g : Field} : ¬g.Inside [] := by
  intro h
  cases h with
  | here hf => cases hf
  | deeper hf _ => cases hf

theorem Field.inside_cons {f g : Field} {fs : List Field} :
    g.Inside (f :: fs) ↔ g = f ∨ g.Inside f.fields ∨ g.Inside fs := by
  constructor
  · intro h
    cases h with
    | here hf => exact (List.mem_cons.1 hf).imp_right fun hf => .inr (.here hf)
    | deeper hf hg =>
      obtain rfl | hf := List.mem_cons.1 hf
      · exact .inr (.inl hg)
      · exact .inr (.inr (.deeper hf hg))
  · rintro (rfl | h | h)
    · exact .here List.mem_cons_self
    · exact .deeper List.mem_cons_self h
    · exact h.tail f

namespace Schema

/-- The types that need no declaration. -/
def plainTypes : List String := ["string", "int", "bool", "map[string]string"]

/-- The schema of an object lists the property among those that it requires. -/
def Requires (s : Json) (name : String) : Prop := ∃ names, s.get? "required" = some (.arr names) ∧ .str name ∈ names

/-- The lines of the description that a schema carries. -/
def descriptionLines (s : Json) : List String :=
  match s.get? "description" with
  | some (.str d) => (Text.lines d).map Text.trimEnd
  | _ => []

/-- The comment that gives the default that a schema carries. -/
def defaultComments (s : Json) : List String :=
  (s.get? "default").toList.map fun d => "+kubebuilder:default=" ++ d.render

/-- A field of a type tells what the schema `s` of the object says of its property `name`, and the schema `x` of
the property. -/
structure Tells (s : Json) (g : GoField) (name : String) (x : Json) : Prop where
  required : Requires s name → g.jsonTag = name ∧
    g.comments = descriptionLines x ++ "+kubebuilder:validation:Required" :: defaultComments x
  optional : ¬Requires s name → g.jsonTag = name ++ ",omitempty" ∧
    g.comments = descriptionLines x ++ "+kubebuilder:validation:Optional" :: defaultComments x

/-- What a type name stands for among the declared types is what the schema describes, and so it is for all
that is inside. -/
inductive Describes (types : List GoType) : String → Json → Prop
  | string {s : Json} : s.get? "type" = some (.str "string") → Describes types "string" s
  | int {s : Json} : s.get? "type" = some (.str "integer") → Describes types "int" s
  | bool {s : Json} : s.get? "type" = some (.str "boolean") → Describes types "bool" s
  | map {s : Json} : s.get? "type" = some (.str "object") → s.get? "properties" = none →
      s.get? "additionalProperties" = some (typed "string") → Describes types "map[string]string" s
  | object {s : Json} {t : GoType} {properties ps : List (String × Json)} : t.name ∉ plainTypes → t ∈ types →
      (∀ t' ∈ types, t'.name = t.name → t' = t) → s.get? "type" = some (.str "object") →
      s.get? "additionalProperties" = none → s.get? "properties" = some (.obj properties) → ps ~ properties →
      List.Forall₂ (fun g p => Tells s g p.1 p.2) t.fields ps →
      (∀ e ∈ t.fields.zip ps, Describes types e.1.type e.2.2) → Describes types t.name s

variable {f : Field} {fs : List Field} {s x : Json} {ms keywords : List (String × Json)} {k kind scope : String}
  {types : List GoType}

theorem get?_of_perm (hs : s = .obj ms) (hp : ms ~ keywords) (hn : (keywords.map Prod.fst).Nodup) :
    s.get? k = keywords.lookup k := by
  subst hs
  ext v
  rw [get?, mem_iff_lookup ((hp.map _).nodup_iff.2 hn), hp.mem_iff, mem_iff_lookup hn]

theorem nodup_objectKeywords (fs : List Field) : ((objectKeywords fs).map Prod.fst).Nodup := by
  unfold objectKeywords
  cases requiredNames fs <;> simp

theorem get?_objectSchema (fs : List Field) (k : String) :
    (objectSchema fs).get? k = (objectKeywords fs).lookup k := by
  obtain ⟨ms, hms, hp⟩ := objectSchema_spec fs
  exact get?_of_perm hms hp (nodup_objectKeywords fs)

/-- What the schema of a field says besides what its kind asks for. -/
def annotations (f : Field) : List (String × Json) :=
  (shownDefault f).toList.map ("default", ·) ++ (f.description.map .str).toList.map ("description", ·)

theorem nodup_fieldKeywords (f : Field) : ((annotations f ++ Schema.keywords f).map Prod.fst).Nodup := by
  have hd := description_not_mem_keywords (f := f)
  have hv := default_not_mem_keywords (f := f)
  have hn := nodup_keywords (f := f)
  unfold annotations
  cases f.description <;> cases shownDefault f <;> simp_all

theorem get?_fieldSchema (f : Field) (k : String) :
    (fieldSchema f).get? k = (annotations f ++ Schema.keywords f).lookup k := by
  obtain ⟨ms, hms, hp⟩ := fieldSchema_spec f
  rw [← List.append_assoc] at hp
  exact get?_of_perm hms hp (nodup_fieldKeywords f)

/-- What the kind of a field asks for is not among the annotations. -/
theorem get?_keyword (hd : k ≠ "default") (hn : k ≠ "description") :
    (fieldSchema f).get? k = (Schema.keywords f).lookup k := by
  have hnone : (annotations f).lookup k = none := by
    unfold annotations
    cases f.description <;> cases shownDefault f <;> simp [List.lookup_cons, beq_false_of_ne, hd, hn]
  rw [get?_fieldSchema, List.lookup_append, hnone, Option.none_or]

theorem get?_description (f : Field) : (fieldSchema f).get? "description" = f.description.map .str := by
  ext x
  rw [get?_fieldSchema, mem_iff_lookup (nodup_fieldKeywords f), annotations]
  have hmem : ("description", x) ∉ Schema.keywords f := fun h => description_not_mem_keywords (List.mem_map_of_mem h)
  cases f.description <;> simp [hmem, eq_comm]

theorem requires_iff (hs : s.get? "required" = requiredNames fs) :
    Requires s k ↔ ∃ f ∈ fs, f.required ∧ f.name = k := by
  have hmem : (∃ f ∈ fs, f.required ∧ f.name = k) ↔ ∃ f ∈ fs.filter (·.required), f.name = k := by
    simp [and_assoc]
  rw [Requires, hs, requiredNames, hmem]
  split
  next h => simp [h]
  next => simp

/-- A field is told as the schemas of the object and of the property have it. -/
theorem tells_goField (hs : s.get? "required" = requiredNames fs) (hn : (fs.map (·.name)).Nodup) (hf : f ∈ fs) :
    Tells s (goField scope f) f.name (fieldSchema f) := by
  have hrequires : Requires s f.name ↔ f.required := by
    rw [requires_iff hs]
    constructor
    · rintro ⟨g, hg, hr, he⟩
      exact List.inj_on_of_nodup_map hn hg hf he ▸ hr
    · exact fun hr => ⟨f, hf, hr, rfl⟩
  have hlines : ((f.description.map Text.lines).getD []).map Text.trimEnd = descriptionLines (fieldSchema f) := by
    rw [descriptionLines, get?_description]
    cases f.description <;> rfl
  have hdefault : (shownDefault f).toList.map (fun d => "+kubebuilder:default=" ++ d.render) =
      defaultComments (fieldSchema f) := by
    rw [defaultComments, get?_default]
  constructor
  · intro h
    have hr := hrequires.1 h
    simp [goField, jsonTag, comments, hr, hlines, hdefault]
  · intro h
    have hr := hrequires.not.1 h
    simp [goField, jsonTag, comments, hr, hlines, hdefault]

/-- Names that start so are those of declared types. -/
def Declaring (scope : String) : Prop := ∀ name, scope ++ name ∉ plainTypes

theorem Declaring.append (h : Declaring scope) (name : String) : Declaring (scope ++ name) := fun more => by
  rw [String.append_assoc]
  exact h _

theorem declaring_of_upperCamel (h : UpperCamel kind) : Declaring kind := by
  obtain ⟨c, cs, hkind, hc, -⟩ := h
  have hlower : plainTypes.all fun t => t.toList.head?.all fun d => !isUpper d := by decide
  intro name hm
  have := List.all_eq_true.1 hlower _ hm
  simp [hkind, hc] at this

/-- An object is described by a type that has its fields, if the schema says of it what it says of objects. -/
theorem describes_of_fields {t : GoType} (ht : t ∈ types) (hone : ∀ t' ∈ types, t'.name = t.name → t' = t)
    (hname : t.name ∉ plainTypes) (hfields : t.fields = fs.map (goField scope))
    (hs : ∀ k, k ∈ ["type", "required", "properties", "additionalProperties"] →
      s.get? k = (objectKeywords fs).lookup k)
    (hn : (fs.map (·.name)).Nodup) (hinner : ∀ f ∈ fs, Describes types (goFieldType scope f) (fieldSchema f)) :
    Describes types t.name s := by
  obtain ⟨properties, hproperties, hp⟩ := ofMembers_spec (names_propertySchemas fs ▸ hn)
  have hlookup (k : String) (x : Json) (h : (k, x) ∈ objectKeywords fs) : (objectKeywords fs).lookup k = some x :=
    (mem_iff_lookup (nodup_objectKeywords fs)).2 h
  have hrequired : s.get? "required" = requiredNames fs := by
    rw [hs _ (by decide), objectKeywords]
    cases requiredNames fs <;> rfl
  have hadditional : s.get? "additionalProperties" = none := by
    rw [hs _ (by decide), objectKeywords]
    cases requiredNames fs <;> rfl
  have hpairs : propertySchemas fs = fs.map fun f => (f.name, fieldSchema f) := by
    clear hfields hs hn hinner hproperties hp hlookup hrequired hadditional
    induction fs with
    | nil => rfl
    | cons f fs ih => rw [propertySchemas, ih, List.map_cons]
  refine .object hname ht hone ?_ hadditional ?_ hp.symm ?_ ?_
  · rw [hs _ (by decide)]
    exact hlookup _ _ (by simp [objectKeywords])
  · rw [hs _ (by decide)]
    exact hlookup _ _ (by simp [objectKeywords, hproperties])
  · rw [hfields, hpairs, List.forall₂_map_left_iff, List.forall₂_map_right_iff, List.forall₂_same]
    exact fun f hf => tells_goField hrequired hn hf
  · rw [hfields, hpairs, List.zip_map']
    exact List.forall_mem_map.2 hinner

/-- The fields at one level are described by their types, where the types of the objects inside are declared
and no name is declared twice. -/
theorem describes_goFieldType (hone : (types.map (·.name)).Nodup) : ∀ {fs : List Field} {scope : String},
    Declaring scope → nestedTypes scope fs ⊆ types → (∀ g : Field, g.Inside fs → (g.fields.map (·.name)).Nodup) →
    ∀ f ∈ fs, Describes types (goFieldType scope f) (fieldSchema f)
  | [], _, _, _, _ => List.forall_mem_nil _
  | .mk name kind default required description inner :: fs, scope, hscope, hsub, hn => by
    have hkeyword (k : String) (hk : k ∈ ["type", "required", "properties", "additionalProperties"]) :
        (fieldSchema (.mk name kind default required description inner)).get? k =
          (Schema.keywords (.mk name kind default required description inner)).lookup k := by
      refine get?_keyword ?_ ?_ <;> rintro rfl <;> simp at hk
    unfold nestedTypes at hsub
    dsimp only at hsub
    have hrest := List.append_subset.1 hsub
    have hfs := describes_goFieldType hone hscope hrest.2 fun g hg => hn g (hg.tail _)
    refine List.forall_mem_cons.2 ⟨?_, hfs⟩
    cases kind with
    | string => exact .string ((hkeyword _ (by decide)).trans rfl)
    | int => exact .int ((hkeyword _ (by decide)).trans rfl)
    | bool => exact .bool ((hkeyword _ (by decide)).trans rfl)
    | map => refine .map ?_ ?_ ?_ <;> exact (hkeyword _ (by decide)).trans rfl
    | object =>
      have hown := List.cons_subset.1 hrest.1
      have hinner := describes_goFieldType hone (hscope.append (upperCamel name)) hown.2
        fun g hg => hn g (.deeper List.mem_cons_self hg)
      exact describes_of_fields hown.1 (fun t' ht' he => List.inj_on_of_nodup_map hone ht' hown.1 he)
        (hscope _) rfl hkeyword (hn _ (.here List.mem_cons_self)) hinner

/-- One type is declared for the specification and one for each object in it, and followed from the type of the
specification they describe the schema of the specification, property by property. -/
theorem types_describe_the_schema (hk : isUpperCamel kind) (hn : (fs.map (·.name)).Nodup)
    (hinner : ∀ g : Field, g.Inside fs → (g.fields.map (·.name)).Nodup)
    (hone : ((goTypes kind fs).map (·.name)).Nodup) :
    (goTypes kind fs).map (·.name) = (kind ++ "Spec") :: (objectPaths fs).map (kind ++ spelling ·) ∧
    ∃ properties s, (openApi fs).get? "properties" = some properties ∧ properties.get? "spec" = some s ∧
      Describes (goTypes kind fs) (kind ++ "Spec") s := by
  have hdeclaring := declaring_of_upperCamel (isUpperCamel_iff.1 hk)
  have hproperties : ∃ properties, (openApi fs).get? "properties" = some properties ∧
      properties.get? "spec" = some (objectSchema fs) := by
    refine ⟨_, (get?_ofMembers (by simp)).2 (.tail _ (.head _)), (get?_ofMembers (by simp)).2 ?_⟩
    exact .tail _ (.tail _ (.tail _ (.head _)))
  obtain ⟨properties, hproperties, hspecification⟩ := hproperties
  refine ⟨by rw [goTypes, List.map_cons, names_nestedTypes], properties, _, hproperties, hspecification, ?_⟩
  have hfields := describes_goFieldType hone hdeclaring (List.subset_cons_self _ _) hinner
  have hspec : (goTypes kind fs).head? = some ⟨kind ++ "Spec", s!"defines the desired state of {kind}.",
      fs.map (goField kind)⟩ := rfl
  have hmem := List.mem_of_mem_head? hspec
  exact describes_of_fields hmem (fun t' ht' he => List.inj_on_of_nodup_map hone ht' hmem he) (hdeclaring _) rfl
    (fun k _ => get?_objectSchema fs k) hn hfields

end Schema

namespace Gateway

open Schema

def host : Field := ⟨"hostName", .string, none, true, some "Name of the host.  \nMust resolve.", []⟩

def ports : Field := ⟨"ports", .int, some (.int 80), false, none, []⟩

def tls : Field := ⟨"tls", .object, some .empty, false, none, [host]⟩

theorem nodup_inside : ∀ g : Field, g.Inside [ports, tls] → (g.fields.map (·.name)).Nodup := by
  intro g hg
  simp only [Field.inside_cons, Field.not_inside_nil, ports, tls, host, or_false, false_or] at hg
  obtain rfl | rfl | rfl := hg <;> decide

/-- The field of the inner object is told with both lines of its description, and the default of the object,
which is empty, is told in neither way. -/
theorem types_describe_the_schema_with_an_object_inside : isUpperCamel "Gateway" ∧
    ([ports, tls].map (·.name)).Nodup ∧ (∀ g : Field, g.Inside [ports, tls] → (g.fields.map (·.name)).Nodup) ∧
    ((goTypes "Gateway" [ports, tls]).map (·.name)).Nodup ∧
    (goTypes "Gateway" [ports, tls]).map (·.name) = ["GatewaySpec", "GatewayTls"] ∧
    ∃ properties s, (openApi [ports, tls]).get? "properties" = some properties ∧ properties.get? "spec" = some s ∧
      Describes (goTypes "Gateway" [ports, tls]) "GatewaySpec" s := by
  have hpaths : objectPaths [ports, tls] = [["tls"]] := by simp [objectPaths, ports, tls, host]
  have hnames : (goTypes "Gateway" [ports, tls]).map (·.name) = ["GatewaySpec", "GatewayTls"] := by
    rw [goTypes, List.map_cons, names_nestedTypes, hpaths]
    decide +kernel
  have hone : ((goTypes "Gateway" [ports, tls]).map (·.name)).Nodup := by
    rw [hnames]
    decide
  exact ⟨by decide, by decide, nodup_inside, hone, hnames,
    (types_describe_the_schema (by decide) (by decide) nodup_inside hone).2⟩

end Gateway

end OperatorScaffold

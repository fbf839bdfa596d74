import OperatorScaffold.Proofs.Schema.Members
import OperatorScaffold.Schema
/-!
Which values a schema admits, and what that comes to for the schemas of fields.
-/

namespace OperatorScaffold

open scoped List

namespace Json

/-- The value is of the type that is named. -/
def hasType (v : Json) : Json → Bool
  | .str "string" => v.isStr
  | .str "integer" => v.isInt
  | .str "boolean" => v.isBool
  | .str "object" => v.isObj
  | .str _ => false
  | _ => true

def members : Json → List (String × Json)
  | .obj ms => ms
  | _ => []

/-- The value has all the keys that are listed. -/
def hasKeys (v : Json) : Json → Bool
  | .arr names => names.all fun
    | .str n => (v.get? n).isSome
    | _ => true
  | _ => true

mutual

/-- The schema admits the value. What it says besides the type, the keys that are required and the
properties is no constraint. -/
def admits : Json → Json → Bool
  | .obj keywords, v => admitsAll keywords v
  | _, _ => true
termination_by structural x => x

def admitsAll : List (String × Json) → Json → Bool
  | [], _ => true
  | m :: ms, v => admitsKeyword m v && admitsAll ms v
termination_by structural x => x

def admitsKeyword : String × Json → Json → Bool
  | (keyword, s), v =>
    match keyword with
    | "type" => v.hasType s
    | "required" => v.hasKeys s
    | "properties" => admitsProperties s v
    | "additionalProperties" => v.members.all fun m => admits s m.2
    | _ => true
termination_by structural x => x

def admitsProperties : Json → Json → Bool
  | .obj properties, v => admitsEach properties v
  | _, _ => true
termination_by structural x => x

def admitsEach : List (String × Json) → Json → Bool
  | [], _ => true
  | p :: ps, v => admitsProperty p v && admitsEach ps v
termination_by structural x => x

def admitsProperty : String × Json → Json → Bool
  | (n, s), v =>
    match v.get? n with
    | some x => admits s x
    | none => true
termination_by structural x => x

end

variable {keywords ms props : List (String × Json)} {s v x : Json} {name n : String}

theorem admitsAll_eq (keywords : List (String × Json)) (v : Json) :
    admitsAll keywords v = keywords.all (admitsKeyword · v) := by
  induction keywords with
  | nil => rfl
  | cons m ms ih => rw [admitsAll, ih, List.all_cons]

theorem admits_of_perm (h : ms ~ keywords) : admits (.obj ms) v = keywords.all (admitsKeyword · v) := by
  rw [admits, admitsAll_eq, h.all_eq]

@[simp] theorem admitsKeyword_type (s : Json) : admitsKeyword ("type", s) v = v.hasType s := rfl

@[simp] theorem admitsKeyword_required (s : Json) : admitsKeyword ("required", s) v = v.hasKeys s := rfl

@[simp] theorem admitsKeyword_properties (s : Json) :
    admitsKeyword ("properties", s) v = admitsProperties s v := rfl

@[simp] theorem admitsKeyword_additionalProperties (s : Json) :
    admitsKeyword ("additionalProperties", s) v = v.members.all fun m => admits s m.2 := rfl

@[simp] theorem admitsKeyword_description (s : Json) : admitsKeyword ("description", s) v = true := rfl

@[simp] theorem admitsKeyword_default (s : Json) : admitsKeyword ("default", s) v = true := rfl

theorem admitsEach_iff : admitsEach props v ↔ ∀ n s, (n, s) ∈ props → ∀ x, v.get? n = some x → admits s x := by
  induction props with
  | nil => simp [admitsEach]
  | cons p ps ih =>
    obtain ⟨name, schema⟩ := p
    rw [admitsEach, Bool.and_eq_true, ih, admitsProperty]
    constructor
    · rintro ⟨hp, hps⟩ n s hm x hx
      obtain hm | hm := List.mem_cons.1 hm
      · obtain ⟨rfl, rfl⟩ := Prod.mk.inj hm
        rwa [hx] at hp
      · exact hps n s hm x hx
    · intro h
      refine ⟨?_, fun n s hm => h n s (List.mem_cons_of_mem _ hm)⟩
      split
      next x hx => exact h name schema List.mem_cons_self x hx
      next => rfl

/-- Puts an entry in where there is one to put in. -/
def annotate (name : String) (x : Option Json) (s : Json) : Json :=
  match x with
  | some x => s.set name x
  | none => s

theorem annotate_spec {x : Option Json} (hs : s = .obj ms) (hp : ms ~ keywords)
    (hn : name ∉ keywords.map Prod.fst) :
    ∃ ms', annotate name x s = .obj ms' ∧ ms' ~ x.toList.map (name, ·) ++ keywords := by
  subst hs
  cases x with
  | none => exact ⟨ms, rfl, hp⟩
  | some x =>
    have hms : name ∉ ms.map Prod.fst := fun h => hn ((hp.map _).mem_iff.1 h)
    exact ⟨_, rfl, (perm_insertMember hms).trans (hp.cons _)⟩

end Json

namespace Schema

open Json

variable {f : Field} {fs : List Field} {v d : Json}

def requiredNames (fs : List Field) : Option Json :=
  match fs.filter (·.required) with
  | [] => none
  | rs => some (.arr (rs.map fun f => .str f.name))

/-- What the schema of an object says. -/
def objectKeywords (fs : List Field) : List (String × Json) :=
  (requiredNames fs).toList.map ("required", ·) ++
    [("type", .str "object"), ("properties", .ofMembers (propertySchemas fs))]

/-- What the schema of a field says about its values. -/
def keywords (f : Field) : List (String × Json) :=
  match f.kind with
  | .string => [("type", .str "string")]
  | .int => [("type", .str "integer")]
  | .bool => [("type", .str "boolean")]
  | .map => [("type", .str "object"), ("additionalProperties", .obj [("type", .str "string")])]
  | .object => objectKeywords f.fields

theorem objectSchema_eq (fs : List Field) : objectSchema fs = annotate "required" (requiredNames fs)
    (.ofMembers [("type", .str "object"), ("properties", .ofMembers (propertySchemas fs))]) := by
  unfold objectSchema objectOf requiredNames
  cases fs.filter (·.required) <;> rfl

theorem objectSchema_spec (fs : List Field) :
    ∃ ms, objectSchema fs = .obj ms ∧ ms ~ objectKeywords fs := by
  obtain ⟨ms, hms, hp⟩ := ofMembers_spec (m := [("type", .str "object"),
    ("properties", .ofMembers (propertySchemas fs))]) (by simp)
  rw [objectSchema_eq]
  exact annotate_spec hms hp (by simp)

theorem fieldSchema_eq (f : Field) : ∃ s ms, fieldSchema f = annotate "default" (shownDefault f)
    (annotate "description" (f.description.map .str) s) ∧ s = .obj ms ∧ ms ~ keywords f := by
  obtain ⟨name, kind, default, required, description, inner⟩ := f
  unfold keywords
  cases kind with
  | object =>
    obtain ⟨ms, hms, hp⟩ := objectSchema_spec inner
    refine ⟨_, ms, ?_, hms, hp⟩
    cases description <;> rfl
  | string =>
    refine ⟨.obj [("type", .str "string")], _, ?_, rfl, .refl _⟩
    cases description <;> rfl
  | int =>
    refine ⟨.obj [("type", .str "integer")], _, ?_, rfl, .refl _⟩
    cases description <;> rfl
  | bool =>
    refine ⟨.obj [("type", .str "boolean")], _, ?_, rfl, .refl _⟩
    cases description <;> rfl
  | map =>
    obtain ⟨ms, hms, hp⟩ := ofMembers_spec (m := [("type", .str "object"),
      ("additionalProperties", .obj [("type", .str "string")])]) (by simp)
    refine ⟨_, ms, ?_, hms, hp⟩
    cases description <;> rfl

theorem description_not_mem_keywords : "description" ∉ (keywords f).map Prod.fst := by
  unfold keywords objectKeywords
  cases f.kind <;> simp

theorem default_not_mem_keywords : "default" ∉ (keywords f).map Prod.fst := by
  unfold keywords objectKeywords
  cases f.kind <;> simp

theorem nodup_keywords : ((keywords f).map Prod.fst).Nodup := by
  unfold keywords objectKeywords
  cases f.kind <;> cases requiredNames f.fields <;> simp

theorem fieldSchema_spec (f : Field) : ∃ ms, fieldSchema f = .obj ms ∧
    ms ~ (shownDefault f).toList.map ("default", ·) ++
      ((f.description.map .str).toList.map ("description", ·) ++ keywords f) := by
  obtain ⟨s, ms, he, hms, hp⟩ := fieldSchema_eq f
  obtain ⟨ms₁, hms₁, hp₁⟩ := annotate_spec (x := f.description.map .str) hms hp description_not_mem_keywords
  rw [he]
  refine annotate_spec hms₁ hp₁ fun hmem => ?_
  rw [List.map_append, List.mem_append] at hmem
  obtain hmem | hmem := hmem
  · cases f.description <;> simp at hmem
  · exact default_not_mem_keywords hmem

/-- What is said of a field besides its kind is no constraint. -/
theorem admits_fieldSchema (f : Field) (v : Json) :
    admits (fieldSchema f) v = (keywords f).all (admitsKeyword · v) := by
  obtain ⟨ms, hms, hp⟩ := fieldSchema_spec f
  rw [hms, admits_of_perm hp]
  cases f.description <;> cases shownDefault f <;> simp

theorem get?_default (f : Field) : (fieldSchema f).get? "default" = shownDefault f := by
  obtain ⟨ms, hms, hp⟩ := fieldSchema_spec f
  have hk := default_not_mem_keywords (f := f)
  have hnodup : (ms.map Prod.fst).Nodup := by
    rw [(hp.map _).nodup_iff]
    have hd := description_not_mem_keywords (f := f)
    have hn := nodup_keywords (f := f)
    cases f.description <;> cases shownDefault f <;> simp_all
  ext d
  rw [hms, get?, mem_iff_lookup hnodup, hp.mem_iff]
  have hmem : ("default", d) ∉ keywords f := fun h => hk (List.mem_map_of_mem h)
  cases f.description <;> simp [hmem]

theorem admits_of_not_object (hk : f.kind ≠ .object) : admits (fieldSchema f) v = f.kind.accepts v := by
  rw [admits_fieldSchema, keywords]
  cases h : f.kind with
  | object => exact absurd h hk
  | string => simp [hasType, FieldKind.accepts]
  | int => simp [hasType, FieldKind.accepts]
  | bool => simp [hasType, FieldKind.accepts]
  | map =>
    have hstr (x : Json) : admits (.obj [("type", .str "string")]) x = x.isStr := by
      simp [admits, admitsAll, hasType]
    simp only [List.all_cons, List.all_nil, admitsKeyword_type, admitsKeyword_additionalProperties,
      Bool.and_true, hasType, FieldKind.accepts, hstr]
    cases v <;> simp [isObj, isStrMap, members]

theorem admits_of_object (hk : f.kind = .object) :
    admits (fieldSchema f) v = admits (objectSchema f.fields) v := by
  obtain ⟨ms, hms, hp⟩ := objectSchema_spec f.fields
  rw [admits_fieldSchema, hms, admits_of_perm hp, keywords, hk]

theorem names_propertySchemas (fs : List Field) : (propertySchemas fs).map Prod.fst = fs.map (·.name) := by
  induction fs with
  | nil => rfl
  | cons f fs ih => simp [propertySchemas, ih]

theorem mem_propertySchemas {n : String} {s : Json} :
    (n, s) ∈ propertySchemas fs ↔ ∃ f ∈ fs, f.name = n ∧ fieldSchema f = s := by
  induction fs with
  | nil => simp [propertySchemas]
  | cons f fs ih =>
    simp only [propertySchemas, List.mem_cons, ih, Prod.mk.injEq]
    simp [eq_comm]

theorem hasKeys_requiredNames : ((requiredNames fs).all fun names => v.hasKeys names) ↔
    ∀ f ∈ fs, f.required → v.get? f.name ≠ none := by
  have hall (rs : List Field) : v.hasKeys (.arr (rs.map fun f => .str f.name)) ↔
      ∀ f ∈ rs, v.get? f.name ≠ none := by
    simp [hasKeys, Option.isSome_iff_ne_none]
  have hfilter : (∀ f ∈ fs.filter (·.required), v.get? f.name ≠ none) ↔
      ∀ f ∈ fs, f.required → v.get? f.name ≠ none := by
    simp only [List.mem_filter, and_imp]
  rw [← hfilter]
  unfold requiredNames
  split
  next h => simp [h]
  next => rw [Option.all_some, hall]

/-- The schema of an object admits the objects that have the fields that are required, and for each
field a value that its schema admits, if any. -/
theorem admits_objectSchema (hn : (fs.map (·.name)).Nodup) : admits (objectSchema fs) v ↔ v.isObj ∧
    (∀ f ∈ fs, f.required → v.get? f.name ≠ none) ∧
    ∀ f ∈ fs, ∀ x, v.get? f.name = some x → admits (fieldSchema f) x := by
  obtain ⟨ms, hms, hp⟩ := objectSchema_spec fs
  obtain ⟨props, hprops, hperm⟩ := ofMembers_spec (names_propertySchemas fs ▸ hn)
  rw [hms, admits_of_perm hp, objectKeywords, hprops]
  have heach : admitsEach props v ↔ ∀ f ∈ fs, ∀ x, v.get? f.name = some x → admits (fieldSchema f) x := by
    rw [admitsEach_iff]
    constructor
    · intro h f hf
      exact h _ _ (hperm.mem_iff.2 (mem_propertySchemas.2 ⟨f, hf, rfl, rfl⟩))
    · intro h n s hm
      obtain ⟨f, hf, rfl, rfl⟩ := mem_propertySchemas.1 (hperm.mem_iff.1 hm)
      exact h f hf
  rw [← hasKeys_requiredNames, ← heach]
  cases requiredNames fs <;> simp [hasType, admitsProperties, and_comm, and_left_comm, and_assoc]

end Schema
end OperatorScaffold

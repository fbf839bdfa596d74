import OperatorScaffold.Naming
import OperatorScaffold.Workload.Basic
import OperatorScaffold.Yaml.Printer
/-!
What the fields of a resource become: the Go types of its specification, the schema of its custom
resource definition, and a sample. The three follow the field tree, each in its own terms.
-/

namespace OperatorScaffold

structure GoField where
  name : String
  type : String
  jsonTag : String
  comments : List String
  deriving DecidableEq

structure GoType where
  name : String
  doc : String
  fields : List GoField
  deriving DecidableEq

namespace Schema

open Naming

/-- A default that is worth writing down. -/
def shownDefault (f : Field) : Option Json := f.default.filter (!·.isEmptyObj)

def jsonTag (f : Field) : String :=
  if f.required then f.name else f.name ++ ",omitempty"

def comments (f : Field) : List String :=
  (f.description.map Text.lines).getD [] |>.map Text.trimEnd
    |>.append [if f.required then "+kubebuilder:validation:Required" else "+kubebuilder:validation:Optional"]
    |>.append ((shownDefault f).toList.map fun d => "+kubebuilder:default=" ++ d.render)

/-- The Go type of a field; `scope` is the name that the type of an object starts with. -/
def goFieldType (scope : String) (f : Field) : String :=
  match f.kind with
  | .string => "string"
  | .int => "int"
  | .bool => "bool"
  | .map => "map[string]string"
  | .object => scope ++ upperCamel f.name

def goField (scope : String) (f : Field) : GoField :=
  ⟨upperCamel f.name, goFieldType scope f, jsonTag f, comments f⟩

/-- The types of the objects among the fields, each in front of those inside it. -/
def nestedTypes (scope : String) : List Field → List GoType
  | [] => []
  | .mk name kind _ _ _ inner :: fs =>
    let own := match kind with
      | .object =>
        let type := scope ++ upperCamel name
        ⟨type, s!"is the {name} section of {scope}.", inner.map (goField type)⟩ :: nestedTypes type inner
      | _ => []
    own ++ nestedTypes scope fs

def goTypes (kind : String) (fields : List Field) : List GoType :=
  ⟨kind ++ "Spec", s!"defines the desired state of {kind}.", fields.map (goField kind)⟩ ::
    nestedTypes kind fields

def typed (name : String) : Json := .obj [("type", .str name)]

def described (d : Option String) (s : Json) : Json :=
  match d with
  | some d => s.set "description" (.str d)
  | none => s

def defaulted (d : Option Json) (s : Json) : Json :=
  match d with
  | some d => s.set "default" d
  | none => s

/-- The schema of an object with these properties. -/
def objectOf (fields : List Field) (properties : List (String × Json)) : Json :=
  let schema := Json.ofMembers [("type", .str "object"), ("properties", .ofMembers properties)]
  match fields.filter (·.required) with
  | [] => schema
  | rs => schema.set "required" (.arr (rs.map fun f => .str f.name))

mutual

def fieldSchema : Field → Json
  | .mk name kind default required description inner =>
    let base := match kind with
      | .string => typed "string"
      | .int => typed "integer"
      | .bool => typed "boolean"
      | .map => .ofMembers [("type", .str "object"), ("additionalProperties", typed "string")]
      | .object => objectOf inner (propertySchemas inner)
    defaulted (shownDefault (.mk name kind default required description inner)) (described description base)

def propertySchemas : List Field → List (String × Json)
  | [] => []
  | f :: fs => (f.name, fieldSchema f) :: propertySchemas fs

end

def objectSchema (fields : List Field) : Json := objectOf fields (propertySchemas fields)

def openApi (fields : List Field) : Json :=
  .ofMembers [
    ("type", .str "object"),
    ("properties", .ofMembers [
      ("apiVersion", typed "string"),
      ("kind", typed "string"),
      ("metadata", typed "object"),
      ("spec", objectSchema fields),
      ("status", .ofMembers [
        ("type", .str "object"), ("x-kubernetes-preserve-unknown-fields", .bool true)])])]

mutual

/-- The default of a field, or the zero of its kind. -/
def sampleValue : Field → Json
  | .mk _ kind default _ _ inner => match default with
    | some d => d
    | none => match kind with
      | .object => .ofMembers (sampleMembers inner)
      | .string => .str ""
      | .int => .int 0
      | .bool => .bool false
      | .map => .empty

def sampleMembers : List Field → List (String × Json)
  | [] => []
  | f :: fs => (f.name, sampleValue f) :: sampleMembers fs

end

def sample (fields : List Field) : Json := .ofMembers (sampleMembers fields)

def joinLines : List String → String
  | [] => ""
  | [l] => l
  | l :: ls => l ++ "\n" ++ joinLines ls

/-- A value as block YAML, every line indented, without a line feed at the end. -/
def yamlBlock (v : Json) (indent : Nat) : String :=
  let pad := String.ofList (List.replicate indent ' ')
  joinLines ((Text.lines (Yaml.Value.ofJson v).render).map (pad ++ ·))

end Schema

end OperatorScaffold

import OperatorScaffold.Json.Value
import OperatorScaffold.Marker.Document
/-!
The model of a workload: its resources with their fields and markers, and the dependencies between
them.
-/

namespace OperatorScaffold

/-- The shape of a workload document. -/
inductive WorkloadKind where | standalone | collection | component
  deriving DecidableEq

def WorkloadKind.name : WorkloadKind → String
  | .standalone => "StandaloneWorkload"
  | .collection => "WorkloadCollection"
  | .component => "ComponentWorkload"

def WorkloadKind.ofName? : String → Option WorkloadKind
  | "StandaloneWorkload" => some .standalone
  | "WorkloadCollection" => some .collection
  | "ComponentWorkload" => some .component
  | _ => none

inductive FieldKind where | string | int | bool | map | object
  deriving DecidableEq, Inhabited

namespace FieldKind

def name : FieldKind → String
  | .string => "string"
  | .int => "int"
  | .bool => "bool"
  | .map => "map"
  | .object => "object"

def ofWord? : String → Option FieldKind
  | "string" => some .string
  | "str" => some .string
  | "int" => some .int
  | "integer" => some .int
  | "int32" => some .int
  | "int64" => some .int
  | "bool" => some .bool
  | "boolean" => some .bool
  | "map" => some .map
  | "map[string]string" => some .map
  | "object" => some .object
  | "struct" => some .object
  | _ => none

def ofDeclared? (s : String) : Option FieldKind := ofWord? (Text.lowerAscii (Text.trim s))

def accepts : FieldKind → Json → Bool
  | .string, v => v.isStr
  | .int, v => v.isInt
  | .bool, v => v.isBool
  | .map, v => v.isStrMap
  | .object, v => v.isObj

end FieldKind

/-- A field of a resource. Only a required field can be without a default, and only an object has
fields of its own. -/
structure Field where
  name : String
  kind : FieldKind
  default : Option Json
  required : Bool
  description : Option String
  fields : List Field
  deriving Inhabited

/-- A region of the manifests that the user declares. -/
structure CustomMarker where
  name : String
  scope : Marker.Scope
  default : String
  deriving DecidableEq

structure GVK where
  group : String
  version : String
  kind : String
  deriving DecidableEq

def GVK.text (g : GVK) : String := s!"{g.group}/{g.version}, Kind={g.kind}"

structure Resource where
  name : String
  workloadKind : WorkloadKind
  group : String
  version : String
  kind : String
  plural : String
  namespaced : Bool
  fields : List Field
  markers : List CustomMarker
  /-- Names of the declared companions, sorted and each once. -/
  companions : List String
  parent : Option String
  overridesGroupVersion : Bool
  /-- The document it was declared in. -/
  source : String

namespace Resource

def gvk (r : Resource) : GVK := ⟨r.group, r.version, r.kind⟩

def singular (r : Resource) : String := Text.toLower r.kind

def groupVersion (r : Resource) : String := s!"{r.group}/{r.version}"

end Resource

/-- `dependent` waits until `target` is ready, by calling the predicate. -/
structure Dependency where
  dependent : String
  target : String
  readiness : String
  deriving DecidableEq

def builtinPredicate (kind : String) : String := kind ++ "CheckReady"

structure WorkloadOptions where
  group : String
  version : String
  domain : Option String
  namespaced : Bool
  deriving DecidableEq

/-- A workload; the root comes first, then the companions depth first as they are declared. -/
structure Workload where
  name : String
  source : String
  repository : String
  options : WorkloadOptions
  resources : List Resource
  dependencies : List Dependency

namespace Workload

def root? (w : Workload) : Option Resource := w.resources.head?

/-- Changes the root and leaves the other resources as they are. -/
def mapRoot (w : Workload) (f : Resource → Resource) : Workload :=
  match w.resources with
  | [] => w
  | r :: rs => { w with resources := f r :: rs }

def resource? (w : Workload) (name : String) : Option Resource := w.resources.find? (·.name = name)

def companionsOf (w : Workload) (name : String) : List Resource :=
  w.resources.filter (·.parent = some name)

def dependenciesOf (w : Workload) (name : String) : List Dependency :=
  w.dependencies.filter (·.dependent = name)

def dependentsOf (w : Workload) (name : String) : List Dependency :=
  w.dependencies.filter (·.target = name)

def fullGroup (w : Workload) (r : Resource) : String :=
  match w.options.domain with
  | some d => if d = "" then r.group else s!"{r.group}.{d}"
  | none => r.group

end Workload

end OperatorScaffold

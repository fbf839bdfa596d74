import OperatorScaffold.Files.Error
import OperatorScaffold.Workload.Basic
import OperatorScaffold.Files.Path
/-!
Why a workload document cannot be loaded.
-/

namespace OperatorScaffold

/-- How a document is used against its kind. -/
inductive KindMisuse where
  | componentAsRoot
  | standaloneWithCompanions
  | companion (kind : WorkloadKind)
  deriving DecidableEq

/-- Why a value cannot stand in its field. -/
inductive ValueFault where
  | repositoryOfCompanion
  | clash (name first goName : String)
  | fieldsInside (name : String) (kind : FieldKind)
  | unknownScope (scope : String)
  | markerName (name : String)
  | predicate (name : String)
  deriving DecidableEq

/-- A document is named by its path, with the positions of the inline documents it stands in. -/
inductive ParseError where
  | io (path : Path) (cause : FileError)
  | yaml (path : Path)
  | json (path : Path)
  | unsupportedSchema (document found : String)
  | unknownKind (document found : String)
  | misusedKind (document : String) (misuse : KindMisuse)
  | missingField (document field : String)
  | unknownFieldType (document field declared : String)
  | invalidDefault (document field : String) (value : Json) (kind : FieldKind)
  | invalidValue (document field : String) (fault : ValueFault)
  | circularReference (cycle : List Path)

def schemaVersion : String := "opforge.dev/v1alpha1"

def KindMisuse.message : KindMisuse → String
  | .componentAsRoot => "a ComponentWorkload can only be loaded as a companion"
  | .standaloneWithCompanions => "a StandaloneWorkload cannot declare companions"
  | .companion kind => s!"companion documents must be ComponentWorkload, found {kind.name}"

def ValueFault.message : ValueFault → String
  | .repositoryOfCompanion => "only the root document may set the repository"
  | .clash name first goName =>
    s!"'{name}' clashes with field '{first}' (both render as Go field {goName})"
  | .fieldsInside name kind =>
    s!"only object fields may declare nested fields, '{name}' is {kind.name}"
  | .unknownScope scope => s!"'{scope}' is not one of static, dynamic"
  | .markerName name => s!"'{name}' is not a valid marker name"
  | .predicate name => s!"'{name}' is not an exported Go identifier"

namespace ParseError

/-- What stands for the account that a notation gives of a malformed text. -/
def yamlFault : String := "<yaml error>"

def jsonFault : String := "<json error>"

/-- The fault beneath, where it is one of its own. -/
def cause? : ParseError → Option String
  | .io _ e => some e.message
  | .yaml _ => some yamlFault
  | .json _ => some jsonFault
  | _ => none

def message : ParseError → String
  | .io p e => s!"unable to read workload document {p.text}: {e.message}"
  | .yaml p => s!"workload document {p.text} is not valid YAML: {yamlFault}"
  | .json p => s!"workload document {p.text} is not valid JSON: {jsonFault}"
  | .unsupportedSchema d found =>
    s!"{d}: unsupported apiVersion '{found}' (expected '{schemaVersion}')"
  | .unknownKind d found => s!"{d}: unknown workload kind '{found}'"
  | .misusedKind d m => s!"{d}: {m.message}"
  | .missingField d field => s!"{d}: missing required field '{field}'"
  | .unknownFieldType d field declared => s!"{d}: field '{field}' declares unknown type '{declared}'"
  | .invalidDefault d field value kind =>
    s!"{d}: default for field '{field}' is invalid: {value.render} is not a valid {kind.name}"
  | .invalidValue d field fault => s!"{d}: invalid value for '{field}': {fault.message}"
  | .circularReference cycle =>
    "circular companion reference: " ++ " -> ".intercalate (cycle.map (·.text))

end ParseError

end OperatorScaffold

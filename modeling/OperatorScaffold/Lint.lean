import OperatorScaffold.Naming
import OperatorScaffold.Workload.Basic
/-!
Advice on a workload beyond what generation asks for. Only issues of the gravest kind make a
document fail.
-/

namespace OperatorScaffold.Lint

open Naming

inductive Severity where | error | warning | info
  deriving DecidableEq

structure Issue where
  location : String
  severity : Severity
  kind : String
  message : String
  suggestion : Option String
  deriving DecidableEq

def issueIf (p : Bool) (i : Issue) : List Issue := if p then [i] else []

def kindIssues (r : Resource) : List Issue :=
  let better := upperCamel r.kind
  issueIf (!isUpperCamel r.kind)
    ⟨r.name, .error, "kind_casing", s!"kind '{r.kind}' is not UpperCamelCase", s!"Use '{better}'"⟩

def groupIssues (r : Resource) : List Issue :=
  issueIf (!(Text.splitAtChar '.' r.group).all isDnsLabel)
    ⟨r.name, .error, "group_format", s!"group '{r.group}' is not a lowercase DNS label",
      "Use lowercase letters, digits and '-' only"⟩

def versionIssues (r : Resource) : List Issue :=
  issueIf (!isKubeVersion r.version)
    ⟨r.name, .error, "version_format", s!"version '{r.version}' is not a Kubernetes API version",
      "Use v<N>, v<N>alpha<M> or v<N>beta<M>"⟩

/-- A companion that sets its own group or version, and sets it apart from its parent's. -/
def overrideIssues (w : Workload) (r : Resource) : List Issue :=
  match r.parent.filter (fun _ => r.overridesGroupVersion) >>= w.resource? with
  | none => []
  | some p =>
    let (own, its) := (r.groupVersion, p.groupVersion)
    issueIf (p.group ≠ r.group || p.version ≠ r.version)
      ⟨r.name, .info, "companion_group_version",
        s!"companion uses {own} while its parent '{p.name}' uses {its}", none⟩

def ownFieldIssues (location name : String) (required hasDefault : Bool)
    (description : Option String) : List Issue :=
  let better := lowerCamel name
  issueIf (!isLowerCamel name)
    ⟨location, .warning, "field_casing", s!"field '{name}' is not lowerCamelCase", s!"Use '{better}'"⟩ ++
  issueIf (required && hasDefault)
    ⟨location, .warning, "required_with_default",
      "required field declares a default that can never apply",
      "Drop the default or make the field optional"⟩ ++
  issueIf (description.all Text.isBlankText)
    ⟨location, .info, "missing_description", "field has no description", none⟩

def fieldIssues (path : String) : List Field → List Issue
  | [] => []
  | .mk name _ default required description inner :: fs =>
    let location := s!"{path}.{name}"
    ownFieldIssues location name required default.isSome description ++
      fieldIssues location inner ++ fieldIssues path fs

def resourceIssues (w : Workload) (r : Resource) : List Issue :=
  kindIssues r ++ groupIssues r ++ versionIssues r ++ overrideIssues w r ++
    fieldIssues s!"{r.name}.spec.fields" r.fields

def issues (w : Workload) : List Issue := w.resources.flatMap (resourceIssues w)

def ofSeverity (s : Severity) (is : List Issue) : List Issue := is.filter (·.severity = s)

/-- The text of the failure, if there is an issue of the gravest kind. -/
def failure? (is : List Issue) : Option String :=
  let n := (ofSeverity .error is).length
  if n = 0 then none else some s!"{n} lint error(s) found"

private def issueLines (i : Issue) : List String :=
  [s!"   [{i.kind}] {i.location}", s!"      {i.message}"] ++
    i.suggestion.toList.map fun s => s!"      💡 Suggestion: {s}"

private def titled (title : String) : List Issue → List String
  | [] => []
  | is => title :: is.flatMap issueLines ++ [""]

def report (is : List Issue) : List String :=
  if is.isEmpty then ["✅ No lint issues found!"] else
  let (errors, warnings, infos) := (ofSeverity .error is, ofSeverity .warning is, ofSeverity .info is)
  let (e, w, n) := (errors.length, warnings.length, infos.length)
  ["", "📋 Lint Results:", s!"   {e} error(s), {w} warning(s), {n} info(s)", ""] ++
    titled "❌ Errors (must fix):" errors ++
    titled "⚠️  Warnings (should fix):" warnings ++
    titled "ℹ️  Info (best practices):" infos

end OperatorScaffold.Lint

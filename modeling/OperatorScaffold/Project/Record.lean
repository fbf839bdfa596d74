import OperatorScaffold.Files.Workspace
import OperatorScaffold.Project.Printer
import OperatorScaffold.Project.Reader
import OperatorScaffold.Scaffold.Error
import OperatorScaffold.Scaffold.Outcome
/-!
The metadata file at the root of a project, and recording resources in it.
-/

namespace OperatorScaffold

namespace ProjectFile

def path (root : Path) : Path := root.join ⟨"PROJECT"⟩

def load (w : Workspace) (root : Path) : Except ScaffoldError (Option ProjectFile) :=
  if w.has (path root) then do
    let text ← (w.readText (path root)).mapError (.io (path root))
    match read text with
    | some p => return some p
    | none => throw (.project (path root) .malformed)
  else return none

/-- The metadata of a project whose version is supported, if it has any yet. -/
def loadSupported (w : Workspace) (root : Path) : Except ScaffoldError (Option ProjectFile) := do
  match ← load w root with
  | none => return none
  | some p =>
    if isSupportedVersion p.version then return some p
    else throw (.project (path root) (.unsupportedVersion p.version))

/-- The path of the workload's document, relative where it lies in the project. -/
def configPath (w : Workspace) (root : Path) (source : String) : String :=
  let base := match w.canonical root with
    | .ok p => p
    | .error _ => root
  match (Path.mk source).below? base with
  | some p => p.text
  | none => source

end ProjectFile

def recordResources (root : Path) (w : Workload) (order : List Resource) (controllers : Bool) :
    Action ScaffoldError WriteOutcome := do
  let space ← get
  let existing ← liftExcept (ProjectFile.loadSupported space root)
  let updated := (existing.getD .blank).record w order controllers
    (ProjectFile.configPath space root w.source)
  if existing.any (·.same updated) then return .unchanged
  Workspace.writeText (ProjectFile.path root) updated.render |>.relabel fun (p, e) => .io p e
  return if existing.isSome then .updated else .created

end OperatorScaffold

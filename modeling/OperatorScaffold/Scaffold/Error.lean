import OperatorScaffold.Files.Error
import OperatorScaffold.Marker.Document
import OperatorScaffold.Project.File
import OperatorScaffold.Template.Registry
/-!
Why an artifact cannot be scaffolded.
-/

namespace OperatorScaffold

inductive ProjectFault where
  | malformed
  | unsupportedVersion (version : String)
  deriving DecidableEq

def ProjectFault.message : ProjectFault → String
  | .malformed => "<yaml error>"
  | .unsupportedVersion v =>
    let supported := ", ".intercalate supportedVersions
    s!"project version '{v}' is not supported by {pluginKey} (supported: {supported})"

inductive ScaffoldError where
  | template (cause : Template.RenderError)
  | invalidTemplate (id : String) (cause : Marker.Error)
  | destinationExists (path : Path)
  | mergeConflict (path : Path) (cause : Marker.Error)
  | io (path : Path) (cause : FileError)
  | project (path : Path) (fault : ProjectFault)
  deriving DecidableEq

namespace ScaffoldError

/-- The fault beneath, where it is one of its own. -/
def cause? : ScaffoldError → Option String
  | .template (.failed _ reason) => some reason
  | .template (.unknown _) => none
  | .invalidTemplate _ e => some e.message
  | .destinationExists _ => none
  | .mergeConflict _ e => some e.message
  | .io _ e => some e.message
  | .project .. => none

def message : ScaffoldError → String
  | .template e => e.message
  | .invalidTemplate id e => s!"template '{id}' produced malformed markers: {e.message}"
  | .destinationExists p => s!"{p.text} already exists (use --force to overwrite)"
  | .mergeConflict p e => s!"cannot merge into {p.text}: {e.message}"
  | .io p e => s!"i/o error on {p.text}: {e.message}"
  | .project p fault => s!"unable to record project metadata in {p.text}: {fault.message}"

end ScaffoldError

end OperatorScaffold

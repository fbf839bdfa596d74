import OperatorScaffold.Files.Workspace
import OperatorScaffold.Marker.Merge
import OperatorScaffold.Scaffold.Error
import OperatorScaffold.Scaffold.Outcome
/-!
Scaffolding one artifact: its policy says what becomes of a file that is there, and a file that holds
its text already is not written again.
-/

namespace OperatorScaffold

structure WriteMode where
  /-- Overwrite controllers. -/
  force : Bool
  /-- Write nothing. -/
  dryRun : Bool
  deriving DecidableEq

namespace Artifact

/-- The text that the file gets, and the regions it loses. -/
def compose (a : Artifact) (rendered : String) (fresh : Marker.Document) (existing : Option String) :
    Except ScaffoldError (String × List String) :=
  match existing, a.policy with
  | some current, .merge => do
    let onDisk ← (Marker.Document.parse current).mapError (.mergeConflict a.destination)
    return ((Marker.merge fresh onDisk).render, Marker.dropped fresh onDisk)
  | _, _ => return (rendered, [])

def existing? (w : Workspace) (p : Path) : Except ScaffoldError (Option String) :=
  if w.has p then return some (← (w.readText p).mapError (.io p)) else return none

def scaffold (a : Artifact) (g : Template.Registry) (m : WriteMode) (c : Template.Context) :
    Action ScaffoldError WriteOutcome := do
  let w ← get
  let present := w.has a.destination
  if present && a.policy = .skip then return .skipped
  if present && a.policy = .refuseUnlessForced && !m.force then
    throw (.destinationExists a.destination)
  let rendered ← liftExcept ((g.render a.template c).mapError .template)
  let fresh ← liftExcept ((Marker.Document.parse rendered).mapError (.invalidTemplate a.template))
  let existing ← liftExcept (existing? w a.destination)
  let (text, lost) ← liftExcept (a.compose rendered fresh existing)
  modify fun w => lost.foldl (fun w name => w.notify (.droppedRegion a.destination name)) w
  if existing = some text then return .unchanged
  if !m.dryRun then
    Workspace.writeText a.destination text |>.relabel fun (p, e) => .io p e
  return if existing.isSome then .updated else .created

end Artifact

end OperatorScaffold

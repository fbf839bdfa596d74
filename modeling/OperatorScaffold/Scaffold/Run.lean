import OperatorScaffold.Error
import OperatorScaffold.Project.Record
import OperatorScaffold.Scaffold.Artifact
/-!
Scaffolding a workload: resource by resource, dependencies first, and for each its artifacts in a
fixed order. The first failure ends the run and leaves what was written.
-/

namespace OperatorScaffold

structure Scope where
  api : Bool
  manifests : Bool
  samples : Bool
  dependencies : Bool
  controllers : Bool
  deriving DecidableEq

namespace Scope

def all : Scope := ⟨true, true, true, true, true⟩

def none : Scope := ⟨false, false, false, false, false⟩

def includes (s : Scope) : ArtifactKind → Bool
  | .groupVersion => s.api
  | .apiTypes => s.api
  | .manifests => s.manifests
  | .sample => s.samples
  | .dependencies => s.dependencies
  | .controller => s.controllers

end Scope

structure ScaffoldOptions where
  output : Path
  mode : WriteMode
  scope : Scope
  boilerplate : Option Path

structure ScaffoldRecord where
  resource : String
  kind : ArtifactKind
  path : Path
  outcome : WriteOutcome
  deriving DecidableEq

structure ScaffoldReport where
  records : List ScaffoldRecord
  deriving DecidableEq

namespace ScaffoldReport

def count (r : ScaffoldReport) (o : WriteOutcome) : Nat := (r.records.filter (·.outcome = o)).length

def outcomeOf? (r : ScaffoldReport) (p : Path) : Option WriteOutcome :=
  (r.records.find? (·.path.alike p)).map (·.outcome)

end ScaffoldReport

namespace Boilerplate

def relativePath : Path := ⟨"hack/boilerplate.go.txt"⟩

/-- The header of the project, or else the configured one, or else a line that names the module. -/
def resolve (w : Workspace) (root : Path) (configured : Option Path) (repository : String) :
    Except ScaffoldError String :=
  let own := root.join relativePath
  match if w.isFile own then some own else configured with
  | some p => do
    let text ← (w.readText p).mapError (.io p)
    return Text.trimEnd text
  | none => return s!"// Scaffolded by opforge for {repository}."

end Boilerplate

namespace Workload

def controllerOf (w : Workload) (root : Path) (r : Resource) : Artifact :=
  .of root (.ofResource w r) .controller

def checkController (space : Workspace) (w : Workload) (root : Path) (r : Resource) :
    Except Error Unit :=
  let a := w.controllerOf root r
  if space.has a.destination then
    .error (.scaffold r.gvk.text (.destinationExists a.destination))
  else .ok ()

/-- Refuses a run that would overwrite a controller without being forced to, or whose project has a
version that is not supported. -/
def checkDestinations (space : Workspace) (w : Workload) (order : List Resource)
    (o : ScaffoldOptions) : Except Error Unit := do
  if o.scope.api then
    discard <| (ProjectFile.loadSupported space o.output).mapError (.scaffold "PROJECT")
  if !o.mode.force && o.scope.controllers then
    order.forM (checkController space w o.output)

/-- Tells which predicates a dependency file lacks; a file that cannot be read tells nothing. -/
def missingPredicates (space : Workspace) (p : Path) (predicates : List String) : List Notice :=
  match space.readText p with
  | .error _ => []
  | .ok text =>
    (predicates.filter fun q => !Text.contains text s!"func {q}(").map (.missingPredicate p)

/-- The kinds to emit for a resource; `registered` tells that its package is done. -/
def kindsFor (s : Scope) (registered : Bool) : List ArtifactKind :=
  (if s.api && !registered then [.groupVersion] else []) ++ ArtifactKind.perResource.filter s.includes

def scaffoldKinds (g : Template.Registry) (o : ScaffoldOptions) (r : Resource)
    (c : Template.Context) : List ArtifactKind → Action Error (List ScaffoldRecord)
  | [] => return []
  | k :: ks => do
    let a := Artifact.of o.output c.resource k
    let outcome ← (a.scaffold g o.mode c).relabel (.scaffold r.gvk.text)
    if k = .dependencies && outcome = .skipped then
      modify fun space =>
        (missingPredicates space a.destination c.predicates).foldl Workspace.notify space
    return ⟨r.name, k, a.destination, outcome⟩ :: (← scaffoldKinds g o r c ks)

/-- Emits the resources in this order; `registered` holds the groups and versions that are done. -/
def scaffoldResources (w : Workload) (g : Template.Registry) (o : ScaffoldOptions)
    (boilerplate : String) (registered : List (String × String)) :
    List Resource → Action Error (List ScaffoldRecord)
  | [] => return []
  | r :: rs => do
    let package := (r.group, r.version)
    let kinds := kindsFor o.scope (registered.contains package)
    let done ← scaffoldKinds g o r (.of w r boilerplate) kinds
    return done ++ (← scaffoldResources w g o boilerplate (package :: registered) rs)

def scaffold (w : Workload) (order : List Resource) (g : Template.Registry) (o : ScaffoldOptions) :
    Action Error ScaffoldReport := do
  let space ← get
  liftExcept (checkDestinations space w order o)
  let boilerplate ← liftExcept <|
    (Boilerplate.resolve space o.output o.boilerplate w.repository).mapError (.scaffold w.name)
  let records ← scaffoldResources w g o boilerplate [] order
  if o.scope.api && !o.mode.dryRun then
    discard <| (recordResources o.output w order o.scope.controllers).relabel (.scaffold "PROJECT")
  return ⟨records⟩

end Workload

end OperatorScaffold

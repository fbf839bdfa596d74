import OperatorScaffold.Artifact
import OperatorScaffold.Graph.Validation
/-!
What a template knows of a resource. The dependencies come from the edges that leave the resource,
and the predicates to define from the edges that lead to it.
-/

namespace OperatorScaffold.Template

/-- A resource that is waited for, and the predicate that tells its readiness. -/
structure Awaited where
  name : String
  kind : String
  fullGroup : String
  plural : String
  readiness : String
  deriving DecidableEq

structure Context where
  boilerplate : String
  repository : String
  resource : Identity
  fields : List Field
  markers : List CustomMarker
  dependencies : List Awaited
  predicates : List String

/-- Each element at its first place only. -/
def distinct {α : Type} [BEq α] (seen : List α) : List α → List α
  | [] => []
  | a :: as => if seen.contains a then distinct seen as else a :: distinct (a :: seen) as

def awaited? (w : Workload) (d : Dependency) : Option Awaited :=
  (w.resource? d.target).map fun t => ⟨t.name, t.kind, w.fullGroup t, t.plural, d.readiness⟩

def awaitedBy (w : Workload) (name : String) : List Awaited :=
  distinct [] ((w.dependenciesOf name).filterMap (awaited? w))

def predicatesOf (w : Workload) (r : Resource) : List String :=
  distinct [] (builtinPredicate r.kind :: (w.dependentsOf r.name).map (·.readiness))

def Context.of (w : Workload) (r : Resource) (boilerplate : String) : Context where
  boilerplate := Text.trimEnd boilerplate
  repository := w.repository
  resource := .ofResource w r
  fields := r.fields
  markers := r.markers
  dependencies := awaitedBy w r.name
  predicates := predicatesOf w r

end OperatorScaffold.Template

import Mathlib.Data.List.ProdSigma
import Mathlib.Logic.Relation
import OperatorScaffold.Graph.Validation
import OperatorScaffold.Proofs.Naming
/-!
What a well-formed workload is, rule by rule, and which breach of a rule each error reports.
-/

namespace OperatorScaffold

open scoped List
open Naming Relation

inductive Rule where
  | gvks | names | shapes | paths | endpoints | readiness | acyclic
  deriving DecidableEq

/-- The place of a rule in the order of the checks. -/
def Rule.rank : Rule → Nat
  | .gvks => 1
  | .names => 2
  | .shapes => 3
  | .paths => 4
  | .endpoints => 5
  | .readiness => 6
  | .acyclic => 7

/-- The names of a resource that are taken in its group and version. -/
def Resource.Takes (r : Resource) (form : String) : Prop :=
  form = Text.toLower r.kind ∨ form = Text.toLower r.plural

def IsPlural (s : String) : Prop := s ≠ "" ∧ ∀ c ∈ s.toList, isLower c ∨ isDigit c ∨ c = '-'

def IsGroup (s : String) : Prop := s ≠ "" ∧ ∀ c ∈ s.toList, isLower c ∨ isDigit c ∨ c = '-' ∨ c = '.'

structure Resource.WellShaped (r : Resource) : Prop where
  kind : UpperCamel r.kind
  plural : IsPlural r.plural
  group : IsGroup r.group
  version : KubeVersion r.version

def Resource.markerNames (r : Resource) : List String := r.markers.map (·.name)

namespace Workload

/-- The artifacts that the resources have one by one. -/
def artifacts (w : Workload) : List (Resource × ArtifactKind) :=
  w.resources ×ˢ ArtifactKind.perResource

def pathOf (w : Workload) (a : Resource × ArtifactKind) : Path :=
  a.2.relativePath (.ofResource w a.1)

def DependsOn (w : Workload) (a b : String) : Prop :=
  ∃ d ∈ w.dependencies, d.dependent = a ∧ d.target = b

def names (w : Workload) : List String := w.resources.map (·.name)

/-- A predicate tells whether a target is ready; the last argument is where this is laid down. -/
inductive Tells (w : Workload) : String → String → String → Prop
  | builtin {r : Resource} : r ∈ w.resources →
      Tells w (builtinPredicate r.kind) r.name s!"'{r.name}'"
  | declared {d : Dependency} : d ∈ w.dependencies →
      Tells w d.readiness d.target s!"'{d.dependent}' -> '{d.target}'"

end Workload

def Rule.Holds (w : Workload) : Rule → Prop
  | .gvks => (w.resources.map (·.gvk)).Nodup
  | .names => w.names.Nodup ∧ w.resources.Pairwise fun r s =>
      r.group = s.group → r.version = s.version → ∀ form, r.Takes form → ¬s.Takes form
  | .shapes => (∀ r ∈ w.resources, r.WellShaped) ∧
      ∀ r ∈ w.resources, r.markerNames.Nodup ∧ ∀ name ∈ r.markerNames, name ∉ generatedMarkers
  | .paths => (w.artifacts.map fun a => (w.pathOf a).parts).Nodup
  | .endpoints => ∀ d ∈ w.dependencies, d.dependent ∈ w.names ∧ d.target ∈ w.names
  | .readiness => ∀ predicate target target' origin origin',
      w.Tells predicate target origin → w.Tells predicate target' origin' → target = target'
  | .acyclic => ∀ name, ¬TransGen w.DependsOn name name

/-- A part of a resource that does not have the shape it should, by its name and its value. -/
inductive Resource.Misshapen (r : Resource) : String → String → Prop
  | kind : ¬UpperCamel r.kind → Misshapen r "kind" r.kind
  | plural : ¬IsPlural r.plural → Misshapen r "plural" r.plural
  | group : ¬IsGroup r.group → Misshapen r "group" r.group
  | version : ¬KubeVersion r.version → Misshapen r "version" r.version

namespace ValidationError

def rule : ValidationError → Rule
  | duplicateGvk .. => .gvks
  | namingCollision .. => .names
  | duplicateName .. => .names
  | unknownDependency .. => .endpoints
  | cyclicDependency .. => .acyclic
  | duplicateMarker .. => .shapes
  | invalidIdentity .. => .shapes
  | artifactCollision .. => .paths
  | duplicateReadiness .. => .readiness

/-- The breach that an error reports is there. -/
def Describes (w : Workload) : ValidationError → Prop
  | duplicateGvk gvk first second => ∃ r s, [r, s] <+ w.resources ∧
      r.gvk = gvk ∧ s.gvk = gvk ∧ r.name = first ∧ s.name = second
  | duplicateName name first second => ∃ r s, [r, s] <+ w.resources ∧
      r.name = name ∧ s.name = name ∧ r.source = first ∧ s.source = second
  | namingCollision groupVersion form first second => ∃ r s, [r, s] <+ w.resources ∧
      r.group = s.group ∧ r.version = s.version ∧ s.groupVersion = groupVersion ∧
      r.Takes form ∧ s.Takes form ∧ r.name = first ∧ s.name = second
  | invalidIdentity resource part value => ∃ r ∈ w.resources, r.name = resource ∧
      r.Misshapen part value
  | duplicateMarker resource marker => ∃ r ∈ w.resources, r.name = resource ∧
      (marker ∈ r.markerNames ∧ marker ∈ generatedMarkers ∨ [marker, marker] <+ r.markerNames)
  | artifactCollision path first second => ∃ a b, [a, b] <+ w.artifacts ∧
      (w.pathOf a).parts = path.parts ∧ w.pathOf b = path ∧ a.1.name = first ∧ b.1.name = second
  | unknownDependency resource target => ∃ d ∈ w.dependencies,
      d.dependent = resource ∧ d.target = target ∧ ¬(resource ∈ w.names ∧ target ∈ w.names)
  | duplicateReadiness predicate first second => ∃ target target', target ≠ target' ∧
      w.Tells predicate target first ∧ w.Tells predicate target' second
  | cyclicDependency cycle => cycle.IsChain w.DependsOn ∧
      (∃ name mid, cycle = name :: mid ++ [name]) ∧ cycle.tail.Nodup

end ValidationError

end OperatorScaffold

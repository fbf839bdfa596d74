import OperatorScaffold.Artifact
import OperatorScaffold.Graph.Cycle
import OperatorScaffold.Graph.Order
/-!
What a workload has to satisfy before anything is generated from it. The checks have a fixed order,
and each reports the first violation it meets.
-/

namespace OperatorScaffold

open Naming

inductive ValidationError where
  | duplicateGvk (gvk : GVK) (first second : String)
  | namingCollision (groupVersion name first second : String)
  | duplicateName (name first second : String)
  | unknownDependency (resource target : String)
  | cyclicDependency (cycle : List String)
  | duplicateMarker (resource marker : String)
  | invalidIdentity (resource part value : String)
  | artifactCollision (path : Path) (first second : String)
  | duplicateReadiness (predicate first second : String)
  deriving DecidableEq

def arrowJoin (names : List String) : String := String.intercalate " -> " names

def ValidationError.message : ValidationError → String
  | .duplicateGvk gvk first second =>
    let text := gvk.text
    s!"duplicate resource {text}: declared by both '{first}' and '{second}'"
  | .namingCollision groupVersion name first second =>
    s!"resources '{first}' and '{second}' both resolve to name '{name}' in {groupVersion}"
  | .duplicateName name first second =>
    s!"resource name '{name}' is declared in both {first} and {second}"
  | .unknownDependency resource target =>
    s!"resource '{resource}' depends on unknown resource '{target}'"
  | .cyclicDependency cycle => "cyclic dependency: " ++ arrowJoin cycle
  | .duplicateMarker resource marker =>
    s!"resource '{resource}' declares marker '{marker}' more than once or shadows a generated marker"
  | .invalidIdentity resource part value =>
    s!"resource '{resource}' has an invalid {part}: '{value}'"
  | .artifactCollision path first second =>
    let text := path.text
    s!"resources '{first}' and '{second}' would both be scaffolded to {text}"
  | .duplicateReadiness predicate first second =>
    s!"readiness predicate '{predicate}' is defined for both {first} and {second}"

def generatedMarkers : List String := ["role-labels", "dependency-rules", "crd-annotations"]

namespace Validation

/-- The first entry whose key an earlier entry has, behind that earlier one. -/
def clash? {κ ω : Type} [BEq κ] (seen : List (κ × ω)) : List (κ × ω) → Option ((κ × ω) × (κ × ω))
  | [] => none
  | c :: cs => match seen.find? (·.1 == c.1) with
    | some first => some (first, c)
    | none => clash? (c :: seen) cs

def checkGvks (rs : List Resource) : Except ValidationError Unit :=
  match clash? [] (rs.map fun r => (r.gvk, r.name)) with
  | some (first, second) => .error (.duplicateGvk second.1 first.2 second.2)
  | none => .ok ()

def checkNames (rs : List Resource) : Except ValidationError Unit :=
  match clash? [] (rs.map fun r => (r.name, r.source)) with
  | some (first, second) => .error (.duplicateName second.1 first.2 second.2)
  | none => .ok ()

/-- The singular and the plural in lower case, sorted, and once if they agree. -/
def forms (r : Resource) : List String :=
  let s := r.singular
  let p := Text.toLower r.plural
  if s = p then [s] else if s < p then [s, p] else [p, s]

/-- A form of a name within its group and version. -/
structure FormKey where
  group : String
  version : String
  form : String
  deriving DecidableEq

def formClaims (r : Resource) : List (FormKey × String) :=
  (forms r).map fun f => (⟨r.group, r.version, f⟩, r.name)

def checkForms (rs : List Resource) : Except ValidationError Unit :=
  match clash? [] (rs.flatMap formClaims) with
  | some (first, second) =>
    let k := second.1
    .error (.namingCollision s!"{k.group}/{k.version}" k.form first.2 second.2)
  | none => .ok ()

def isPlural (s : String) : Bool :=
  s ≠ "" && s.toList.all fun c => isLower c || isDigit c || c == '-'

def isGroup (s : String) : Bool :=
  s ≠ "" && s.toList.all fun c => isLower c || isDigit c || c == '-' || c == '.'

def checkIdentity (r : Resource) : Except ValidationError Unit :=
  if !isUpperCamel r.kind then .error (.invalidIdentity r.name "kind" r.kind)
  else if !isPlural r.plural then .error (.invalidIdentity r.name "plural" r.plural)
  else if !isGroup r.group then .error (.invalidIdentity r.name "group" r.group)
  else if !isKubeVersion r.version then .error (.invalidIdentity r.name "version" r.version)
  else .ok ()

def checkMarkers (r : Resource) : Except ValidationError Unit :=
  match clash? (generatedMarkers.map (·, ())) (r.markers.map fun m => (m.name, ())) with
  | some (_, second) => .error (.duplicateMarker r.name second.1)
  | none => .ok ()

def pathClaims (w : Workload) (r : Resource) : List (List String × Path × String) :=
  ArtifactKind.perResource.map fun k =>
    let path := k.relativePath (.ofResource w r)
    (path.parts, path, r.name)

def checkPaths (w : Workload) : Except ValidationError Unit :=
  match clash? [] (w.resources.flatMap (pathClaims w)) with
  | some (first, second) => .error (.artifactCollision second.2.1 first.2.2 second.2.2)
  | none => .ok ()

def checkDependency (rs : List Resource) (d : Dependency) : Except ValidationError Unit :=
  if rs.any (·.name = d.dependent) && rs.any (·.name = d.target) then .ok ()
  else .error (.unknownDependency d.dependent d.target)

/-- A predicate with the resource whose readiness it tells, and the words for where it comes from. -/
structure PredicateUse where
  predicate : String
  target : String
  origin : String
  deriving DecidableEq

def predicateUses (w : Workload) : List PredicateUse :=
  w.resources.map (fun r => ⟨builtinPredicate r.kind, r.name, s!"'{r.name}'"⟩) ++
  w.dependencies.map fun d => ⟨d.readiness, d.target, s!"'{d.dependent}' -> '{d.target}'"⟩

/-- Each predicate belongs to the target of its first use. -/
def checkPredicates (seen : List PredicateUse) : List PredicateUse → Except ValidationError Unit
  | [] => .ok ()
  | u :: us => match seen.find? (·.predicate = u.predicate) with
    | none => checkPredicates (u :: seen) us
    | some first =>
      if first.target = u.target then checkPredicates seen us
      else .error (.duplicateReadiness u.predicate first.origin u.origin)

end Validation

open Validation

/-- The graph of a workload that satisfies all but the last condition: it may have cycles. -/
def ResourceGraph.build (w : Workload) : Except ValidationError ResourceGraph := do
  checkGvks w.resources
  checkNames w.resources
  checkForms w.resources
  w.resources.forM checkIdentity
  w.resources.forM checkMarkers
  checkPaths w
  w.dependencies.forM (checkDependency w.resources)
  checkPredicates [] (predicateUses w)
  return .ofWorkload w

/-- The resources in the order of generation. -/
def Workload.validate (w : Workload) : Except ValidationError (List Resource) := do
  let g ← ResourceGraph.build w
  match g.cycle? with
  | some names => .error (.cyclicDependency names)
  | none => return g.ordered

end OperatorScaffold

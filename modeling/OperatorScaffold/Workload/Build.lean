import OperatorScaffold.Workload.Load
/-!
Building the model of a workload from its documents. The resources come in the order of the
documents, each before its companions; a companion takes its group and version from the resource that
declares it, unless it sets its own.
-/

namespace OperatorScaffold

open Text Naming

/-- The document that is read, for messages. -/
abbrev DocumentLabel := String

namespace Declaration

def demand (doc : DocumentLabel) (field : String) (value : Option String) : Except ParseError String :=
  match value >>= nonBlank? with
  | some v => .ok v
  | none => .error (.missingField doc field)

def workloadKind (d : Declaration) (doc : DocumentLabel) : Except ParseError WorkloadKind := do
  let version ← demand doc "apiVersion" d.apiVersion
  if version ≠ schemaVersion then throw (.unsupportedSchema doc version)
  let kind ← demand doc "kind" d.kind
  match WorkloadKind.ofName? kind with
  | some k => return k
  | none => throw (.unknownKind doc kind)

def demandSpec (d : Declaration) (doc : DocumentLabel) : Except ParseError SpecDeclaration :=
  match d.spec with
  | some s => .ok s
  | none => .error (.missingField doc "spec")

def demandApi (s : SpecDeclaration) (doc : DocumentLabel) : Except ParseError ApiDeclaration :=
  match s.api with
  | some a => .ok a
  | none => .error (.missingField doc "spec.api")

end Declaration

namespace Field

/-- The default of an optional field that declares none. -/
def zeroValue (kind : FieldKind) (inner : List Field) : Json :=
  match kind with
  | .string => .str ""
  | .int => .int 0
  | .bool => .bool false
  | .map => .empty
  | .object => .ofMembers (inner.filterMap fun f => f.default.map (f.name, ·))

def settleDefault (doc : DocumentLabel) (name : String) (kind : FieldKind) (required : Bool)
    (inner : List Field) (declared : Option Json) : Except ParseError (Option Json) :=
  match declared with
  | some v => if kind.accepts v then .ok (some v) else .error (.invalidDefault doc name v kind)
  | none => .ok (if required then none else some (zeroValue kind inner))

/-- A field before that has the name, or the same exported name. -/
def clashing? (before : List Field) (f : Field) : Option Field :=
  before.find? fun g => g.name == f.name || upperCamel g.name == upperCamel f.name

mutual

def ofDeclaration (doc : DocumentLabel) (path : String) : FieldDeclaration → Except ParseError Field
  | ⟨name, type, default, required, description, inner⟩ => do
    let name ← Declaration.demand doc s!"{path}.name" name
    let declared ← Declaration.demand doc s!"{path}.type" type
    match FieldKind.ofDeclared? declared with
    | none => throw (.unknownFieldType doc name declared)
    | some kind =>
      if kind ≠ .object && !inner.isEmpty then
        throw (.invalidValue doc s!"{path}.fields" (.fieldsInside name kind))
      let fields ← ofDeclarations doc s!"{path}.fields" [] inner
      let required := required.getD false
      return {
        name, kind, required, fields
        default := ← settleDefault doc name kind required fields default
        description := description >>= nonBlank? }

/-- `before` holds the fields that are done. -/
def ofDeclarations (doc : DocumentLabel) (path : String) (before : List Field) :
    List FieldDeclaration → Except ParseError (List Field)
  | [] => return before
  | d :: ds => do
    let at_ := s!"{path}[{before.length}]"
    let f ← ofDeclaration doc at_ d
    match clashing? before f with
    | some g => throw (.invalidValue doc s!"{at_}.name" (.clash f.name g.name (upperCamel f.name)))
    | none => ofDeclarations doc path (before ++ [f]) ds

end

end Field

def CustomMarker.ofDeclaration (doc : DocumentLabel) (i : Nat) (d : MarkerDeclaration) :
    Except ParseError CustomMarker := do
  let path := s!"spec.markers[{i}]"
  let name ← Declaration.demand doc s!"{path}.name" d.name
  let scope ← match d.scope with
    | none => pure Marker.Scope.static
    | some s => match Marker.Scope.ofName? s with
      | some scope => pure scope
      | none => throw (.invalidValue doc s!"{path}.scope" (.unknownScope s))
  if !Marker.isName name then throw (.invalidValue doc s!"{path}.name" (.markerName name))
  return ⟨name, scope, d.default.getD ""⟩

/-- A dependency whose predicate may still have to be named. -/
structure PendingDependency where
  dependent : String
  target : String
  readiness : Option String
  deriving DecidableEq

namespace PendingDependency

def ofDeclaration (doc : DocumentLabel) (dependent : String) (i : Nat) (d : DependencyDeclaration) :
    Except ParseError PendingDependency := do
  let path := s!"spec.dependencies[{i}]"
  let target ← Declaration.demand doc s!"{path}.name" d.name
  match d.readiness >>= nonBlank? with
  | none => return ⟨dependent, target, none⟩
  | some r =>
    if !isUpperCamel r then throw (.invalidValue doc s!"{path}.readiness" (.predicate r))
    return ⟨dependent, target, some r⟩

/-- Without a predicate of its own a dependency asks the one that the target's kind gives. -/
def settle (rs : List Resource) (d : PendingDependency) : Dependency where
  dependent := d.dependent
  target := d.target
  readiness := d.readiness.getD <| builtinPredicate <|
    match rs.find? (·.name = d.target) with
    | some r => r.kind
    | none => upperCamel d.target

end PendingDependency

namespace Workload

/-- What a companion takes from the resource that declares it. -/
structure Lineage where
  name : String
  group : String
  version : String
  deriving DecidableEq

def readAll {α β : Type} (read : Nat → α → Except ParseError β) :
    Nat → List α → Except ParseError (List β)
  | _, [] => return []
  | i, a :: as => do
    let b ← read i a
    return b :: (← readAll read (i + 1) as)

/-- The resource of a document, still without companions, and its dependencies. -/
def describe (options : WorkloadOptions) (kind : WorkloadKind) (parent : Option Lineage)
    (doc : DocumentLabel) (d : Declaration) : Except ParseError (Resource × List PendingDependency) := do
  let spec ← d.demandSpec doc
  if parent.isSome && spec.repository.isSome then
    throw (.invalidValue doc "spec.repository" .repositoryOfCompanion)
  let name ← Declaration.demand doc "name" d.name
  let api ← Declaration.demandApi spec doc
  let apiKind ← Declaration.demand doc "spec.api.kind" api.kind
  let fields ← Field.ofDeclarations doc "spec.fields" [] spec.fields
  let markers ← readAll (CustomMarker.ofDeclaration doc) 0 spec.markers
  let dependencies ← readAll (PendingDependency.ofDeclaration doc name) 0 spec.dependencies
  let resource : Resource := {
    name, fields, markers
    workloadKind := kind
    group := match parent with
      | some p => api.group.getD p.group
      | none => options.group
    version := match parent with
      | some p => api.version.getD p.version
      | none => options.version
    kind := apiKind
    plural := (api.plural.filter (!isBlankText ·)).getD (regularPlural apiKind)
    namespaced := ((api.namespaced <|> spec.namespaced).getD options.namespaced)
    companions := []
    parent := parent.map (·.name)
    overridesGroupVersion := parent.isSome && (api.group.isSome || api.version.isSome)
    source := doc }
  return (resource, dependencies)

/-- Puts a name in its place, if it is not there yet. -/
def insertName (name : String) : List String → List String
  | [] => [name]
  | n :: ns => if name < n then name :: n :: ns else if name = n then n :: ns else n :: insertName name ns

mutual

/-- The resources of a document and its companions, and their dependencies, in the order of the
documents. -/
def gather (options : WorkloadOptions) (kind : WorkloadKind) (parent : Option Lineage) :
    LinkedDocument → Except ParseError (List Resource × List PendingDependency)
  | ⟨doc, d, companions⟩ => do
    let (r, ds) ← describe options kind parent doc d
    let (names, rs, more) ← gatherCompanions options ⟨r.name, r.group, r.version⟩ companions
    return ({ r with companions := names.foldr insertName [] } :: rs, ds ++ more)

/-- The names of the companions come first. -/
def gatherCompanions (options : WorkloadOptions) (parent : Lineage) :
    List LinkedDocument → Except ParseError (List String × List Resource × List PendingDependency)
  | [] => return ([], [], [])
  | c :: cs => do
    let kind ← c.declaration.workloadKind c.label
    if kind ≠ .component then throw (.misusedKind c.label (.companion kind))
    let name ← Declaration.demand c.label "name" c.declaration.name
    let (rs, ds) ← gather options kind (some parent) c
    let (names, rs', ds') ← gatherCompanions options parent cs
    return (name :: names, rs ++ rs', ds ++ ds')

end

def build (root : LinkedDocument) : Except ParseError Workload := do
  let doc := root.label
  let kind ← root.declaration.workloadKind doc
  if kind = .component then throw (.misusedKind doc .componentAsRoot)
  if kind = .standalone && !root.companions.isEmpty then
    throw (.misusedKind doc .standaloneWithCompanions)
  let name ← Declaration.demand doc "name" root.declaration.name
  let spec ← root.declaration.demandSpec doc
  let repository ← Declaration.demand doc "spec.repository" spec.repository
  let api ← Declaration.demandApi spec doc
  let options : WorkloadOptions := {
    group := ← Declaration.demand doc "spec.api.group" api.group
    version := ← Declaration.demand doc "spec.api.version" api.version
    domain := spec.domain.filter (!isBlankText ·)
    namespaced := spec.namespaced.getD true }
  let (resources, dependencies) ← gather options kind none root
  return {
    name, repository, options, resources
    source := doc
    dependencies := dependencies.map (PendingDependency.settle resources) }

def parse (w : Workspace) (p : Path) : Except ParseError Workload := do
  build (← loadDocument w p)

end Workload

end OperatorScaffold

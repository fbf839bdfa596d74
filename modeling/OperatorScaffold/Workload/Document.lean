import OperatorScaffold.Document.Node
/-!
Workload documents as they are written. Every entry may be left out, so that what is missing can be
named; an entry that is not known is refused.
-/

namespace OperatorScaffold

open Document

structure ApiDeclaration where
  group : Option String
  version : Option String
  kind : Option String
  plural : Option String
  namespaced : Option Bool

structure FieldDeclaration where
  name : Option String
  type : Option String
  default : Option Json
  required : Option Bool
  description : Option String
  fields : List FieldDeclaration

structure DependencyDeclaration where
  name : Option String
  readiness : Option String

structure MarkerDeclaration where
  name : Option String
  scope : Option String
  default : Option String

structure SpecDeclaration where
  repository : Option String
  domain : Option String
  namespaced : Option Bool
  api : Option ApiDeclaration
  fields : List FieldDeclaration
  dependencies : List DependencyDeclaration
  markers : List MarkerDeclaration

/-- A document without its companions. -/
structure Declaration where
  apiVersion : Option String
  kind : Option String
  name : Option String
  spec : Option SpecDeclaration

/-- A document with the files of its companions, and with those written inside it. -/
structure WorkloadDocument where
  declaration : Declaration
  componentFiles : List String
  components : List WorkloadDocument

private def needed (name : String) : FieldName := ⟨name, false⟩

private def defaulting (name : String) : FieldName := ⟨name, true⟩

def ApiDeclaration.ofNode? (n : Node) : Option ApiDeclaration := do
  let es ← n.fields? (["group", "version", "kind", "plural", "namespaced"].map needed)
  return {
    group := ← es.optional "group" Node.text?
    version := ← es.optional "version" Node.text?
    kind := ← es.optional "kind" Node.text?
    plural := ← es.optional "plural" Node.text?
    namespaced := ← es.optional "namespaced" Node.bool? }

private def fieldEntries : List FieldName :=
  ["name", "type", "default", "required", "description"].map needed ++ [defaulting "fields"]

/-- `depth` bounds how deep fields are nested. -/
private def fieldOfNode? : Nat → Node → Option FieldDeclaration
  | 0, _ => none
  | depth + 1, n => do
    let es ← n.fields? fieldEntries
    return {
      name := ← es.optional "name" Node.text?
      type := ← es.optional "type" Node.text?
      default := ← es.optional "default" Node.value?
      required := ← es.optional "required" Node.bool?
      description := ← es.optional "description" Node.text?
      fields := ← es.listing "fields" (fieldOfNode? depth) }

def FieldDeclaration.ofNode? (n : Node) : Option FieldDeclaration := fieldOfNode? n.depth n

def DependencyDeclaration.ofNode? (n : Node) : Option DependencyDeclaration := do
  let es ← n.fields? (["name", "readiness"].map needed)
  return {
    name := ← es.optional "name" Node.text?
    readiness := ← es.optional "readiness" Node.text? }

def MarkerDeclaration.ofNode? (n : Node) : Option MarkerDeclaration := do
  let es ← n.fields? (["name", "scope", "default"].map needed)
  return {
    name := ← es.optional "name" Node.text?
    scope := ← es.optional "scope" Node.text?
    default := ← es.optional "default" Node.text? }

private def specEntries : List FieldName :=
  ["repository", "domain", "namespaced", "api"].map needed ++
    ["fields", "dependencies", "markers", "componentFiles", "components"].map defaulting

def SpecDeclaration.ofEntries? (es : Entries) : Option SpecDeclaration :=
  return {
    repository := ← es.optional "repository" Node.text?
    domain := ← es.optional "domain" Node.text?
    namespaced := ← es.optional "namespaced" Node.bool?
    api := ← es.optional "api" ApiDeclaration.ofNode?
    fields := ← es.listing "fields" FieldDeclaration.ofNode?
    dependencies := ← es.listing "dependencies" DependencyDeclaration.ofNode?
    markers := ← es.listing "markers" MarkerDeclaration.ofNode? }

/-- `depth` bounds how deep documents are nested. -/
private def documentOfNode? : Nat → Node → Option WorkloadDocument
  | 0, _ => none
  | depth + 1, n => do
    let es ← n.fields? (["apiVersion", "kind", "name", "spec"].map needed)
    let spec ← es.optional "spec" fun s => do
      let inner ← s.fields? specEntries
      return (← SpecDeclaration.ofEntries? inner, ← inner.listing "componentFiles" Node.text?,
        ← inner.listing "components" (documentOfNode? depth))
    return {
      declaration := {
        apiVersion := ← es.optional "apiVersion" Node.text?
        kind := ← es.optional "kind" Node.text?
        name := ← es.optional "name" Node.text?
        spec := spec.map (·.1) }
      componentFiles := (spec.map (·.2.1)).getD []
      components := (spec.map (·.2.2)).getD [] }

def WorkloadDocument.ofNode? (n : Node) : Option WorkloadDocument := documentOfNode? n.depth n

end OperatorScaffold

import OperatorScaffold.Project.File
import OperatorScaffold.Yaml.Reader
/-!
Reading the metadata of a project. Entries that are not known are kept at the top and passed over
in the resources.
-/

namespace OperatorScaffold

open Document

def apiOfNode? (n : Node) : Option ProjectApi := do
  let es ← n.someFields? ["crdVersion", "namespaced"]
  return {
    crdVersion := ← es.required "crdVersion" Node.text?
    namespaced := ← es.orElse "namespaced" false Node.bool? }

def resourceOfNode? (n : Node) : Option ProjectResource := do
  let es ← n.someFields? ["api", "controller", "domain", "group", "kind", "path", "plural", "version"]
  return {
    api := ← es.optional "api" apiOfNode?
    controller := ← es.orElse "controller" false Node.bool?
    domain := ← es.optional "domain" Node.text?
    group := ← es.required "group" Node.text?
    kind := ← es.required "kind" Node.text?
    path := ← es.optional "path" Node.text?
    plural := ← es.optional "plural" Node.text?
    version := ← es.required "version" Node.text? }

namespace ProjectFile

def known : List String :=
  ["domain", "layout", "plugins", "projectName", "repo", "resources", "version"]

def entries? : Yaml.Tree → Option (List (String × Yaml.Tree))
  | .scalar _ style text => if style = .plain && text = "" then some [] else none
  | .record _ es => es.mapM fun (k, v) => return (← k.toNode.text?, v)
  | _ => none

def table? (keepTags : Bool) (es : List (String × Yaml.Tree)) :
    Option (List (String × Yaml.Value)) := do
  let pairs ← es.mapM fun (k, v) => return (k, ← v.toValue? keepTags)
  return pairs.foldl (fun acc e => Json.insertMember e.1 e.2 acc) []

private def noneTwice (es : List (String × Yaml.Tree)) : Bool :=
  known.all fun k => (es.filter (·.1 = k)).length ≤ 1

def ofTree? (t : Yaml.Tree) : Option ProjectFile := do
  let all ← entries? t
  if !noneTwice all then none
  let es : Entries := all.map fun e => (e.1, e.2.toNode)
  return {
    domain := ← es.optional "domain" Node.text?
    layout := ← es.listing "layout" Node.text?
    plugins := ← match all.lookup "plugins" with
      | none => some []
      | some p => entries? p >>= table? true
    projectName := ← es.optional "projectName" Node.text?
    repo := ← es.orElse "repo" "" Node.text?
    resources := ← es.listing "resources" resourceOfNode?
    version := ← es.orElse "version" defaultVersion Node.text?
    extra := ← table? false (all.filter fun e => !known.contains e.1) }

def read (text : String) : Option ProjectFile := Yaml.readTree text >>= ofTree?

end ProjectFile

end OperatorScaffold

import OperatorScaffold.Project.File
import OperatorScaffold.Yaml.Printer
/-!
The text of a project's metadata: two lines of comment, then the entries in a fixed order, those
without a value left out, and last what was kept.
-/

namespace OperatorScaffold

open Yaml (Value)

def optionalEntry (name : String) (v : Option Value) : List (Value × Value) :=
  match v with
  | some v => [(.str name, v)]
  | none => []

def optionalText (name : String) (s : Option String) : List (Value × Value) :=
  optionalEntry name (s.map .str)

def tableValue (es : List (String × Value)) : List (Value × Value) :=
  es.map fun (k, v) => (.str k, v)

def ProjectApi.toValue (a : ProjectApi) : Value :=
  .record [(.str "crdVersion", .str a.crdVersion), (.str "namespaced", .bool a.namespaced)]

def ProjectResource.toValue (r : ProjectResource) : Value :=
  .record <|
    optionalEntry "api" (r.api.map (·.toValue)) ++
    optionalEntry "controller" (if r.controller then some (.bool true) else none) ++
    optionalText "domain" r.domain ++
    [(.str "group", .str r.group), (.str "kind", .str r.kind)] ++
    optionalText "path" r.path ++
    optionalText "plural" r.plural ++
    [(.str "version", .str r.version)]

namespace ProjectFile

def toValue (p : ProjectFile) : Value :=
  .record <|
    optionalText "domain" p.domain ++
    optionalEntry "layout" (if p.layout.isEmpty then none else some (.list (p.layout.map .str))) ++
    optionalEntry "plugins" (if p.plugins.isEmpty then none else some (.record (tableValue p.plugins))) ++
    optionalText "projectName" p.projectName ++
    [(.str "repo", .str p.repo), (.str "resources", .list (p.resources.map (·.toValue))),
      (.str "version", .str p.version)] ++
    tableValue p.extra

def header : String :=
  "# Code generated by opforge. DO NOT EDIT.\n" ++
  "# This file records the resources scaffolded into this project.\n"

def render (p : ProjectFile) : String := header ++ p.toValue.render

end ProjectFile

end OperatorScaffold

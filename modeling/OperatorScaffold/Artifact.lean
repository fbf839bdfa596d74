import OperatorScaffold.Files.Path
import OperatorScaffold.Naming
import OperatorScaffold.Workload.Basic
/-!
The files that a resource is scaffolded to: where each kind of artifact goes, what renders it, and
how it treats a file that is already there.
-/

namespace OperatorScaffold

open Naming

inductive ArtifactKind where
  | groupVersion | apiTypes | manifests | sample | dependencies | controller
  deriving DecidableEq

/-- What becomes of a file that exists. -/
inductive Policy where
  | overwrite
  | skip
  | refuseUnlessForced
  | merge
  deriving DecidableEq

/-- What a resource is called in its files. -/
structure Identity where
  name : String
  group : String
  fullGroup : String
  version : String
  kind : String
  plural : String
  namespaced : Bool
  deriving DecidableEq

namespace Identity

def ofResource (w : Workload) (r : Resource) : Identity where
  name := r.name
  group := r.group
  fullGroup := w.fullGroup r
  version := r.version
  kind := r.kind
  plural := r.plural
  namespaced := r.namespaced

def singular (i : Identity) : String := Text.toLower i.kind

def package (i : Identity) : String := Text.lowerAscii (.ofList (i.group.toList.filter isAlphanumeric))

def apiAlias (i : Identity) : String := i.package ++ i.version

def scope (i : Identity) : String := if i.namespaced then "Namespaced" else "Cluster"

end Identity

namespace ArtifactKind

/-- The kinds that every resource has; the group and version file is shared by a package. -/
def perResource : List ArtifactKind := [.apiTypes, .manifests, .sample, .dependencies, .controller]

def label : ArtifactKind → String
  | .groupVersion => "groupversion"
  | .apiTypes => "api"
  | .manifests => "manifests"
  | .sample => "samples"
  | .dependencies => "dependencies"
  | .controller => "controller"

def template : ArtifactKind → String
  | .groupVersion => "api/groupversion"
  | .apiTypes => "api/types"
  | .manifests => "config/manifests"
  | .sample => "config/sample"
  | .dependencies => "dependencies/check"
  | .controller => "controllers/reconciler"

def policy : ArtifactKind → Policy
  | .groupVersion => .overwrite
  | .apiTypes => .overwrite
  | .manifests => .merge
  | .sample => .skip
  | .dependencies => .skip
  | .controller => .refuseUnlessForced

def relativePath (k : ArtifactKind) (i : Identity) : Path :=
  let file := snakeCase i.kind
  let flat := s!"{i.group}_{i.version}_{file}.yaml"
  match k with
  | .groupVersion => Path.joinAll ⟨"apis"⟩ [i.group, i.version, "groupversion_info.go"]
  | .apiTypes => Path.joinAll ⟨"apis"⟩ [i.group, i.version, s!"{file}_types.go"]
  | .manifests => Path.joinAll ⟨"config"⟩ ["manifests", flat]
  | .sample => Path.joinAll ⟨"config"⟩ ["samples", flat]
  | .dependencies => Path.joinAll ⟨"internal"⟩ ["dependencies", s!"{file}.go"]
  | .controller => Path.joinAll ⟨"controllers"⟩ [i.group, s!"{file}_controller.go"]

end ArtifactKind

structure Artifact where
  kind : ArtifactKind
  template : String
  destination : Path
  policy : Policy
  deriving DecidableEq

def Artifact.of (root : Path) (i : Identity) (k : ArtifactKind) : Artifact :=
  ⟨k, k.template, root.join (k.relativePath i), k.policy⟩

end OperatorScaffold

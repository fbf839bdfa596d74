import OperatorScaffold.Workload.Basic
import OperatorScaffold.Yaml.Value
/-!
The metadata of a project: what is said of the project as a whole, and one entry for each resource.
Entries of the file that are not known are kept as they are.
-/

namespace OperatorScaffold

/-- The plugin that scaffolds resources, as projects record it. -/
def pluginKey : String := "workload.opforge.dev/v2"

def supportedVersions : List String := ["3"]

def isSupportedVersion (v : String) : Bool := supportedVersions.contains v

structure ProjectApi where
  crdVersion : String
  namespaced : Bool
  deriving DecidableEq

structure ProjectResource where
  api : Option ProjectApi
  controller : Bool
  domain : Option String
  group : String
  kind : String
  path : Option String
  plural : Option String
  version : String
  deriving DecidableEq

structure ProjectFile where
  domain : Option String
  layout : List String
  /-- Sorted by key. -/
  plugins : List (String × Yaml.Value)
  projectName : Option String
  repo : String
  resources : List ProjectResource
  version : String
  /-- Entries of the file that mean nothing here, sorted by key. -/
  extra : List (String × Yaml.Value)

def ProjectResource.gvk (r : ProjectResource) : GVK := ⟨r.group, r.version, r.kind⟩

/-- By group, then version, then kind. -/
def GVK.le (a b : GVK) : Bool :=
  a.group < b.group || (a.group = b.group &&
    (a.version < b.version || (a.version = b.version && (a.kind < b.kind || a.kind = b.kind))))

namespace ProjectFile

def blank : ProjectFile := ⟨none, [], [], none, "", [], "", []⟩

def defaultVersion : String := "3"

/-- Puts an entry in front of the first one that is not below it. -/
def insertResource (r : ProjectResource) : List ProjectResource → List ProjectResource
  | [] => [r]
  | s :: rs => if r.gvk.le s.gvk then r :: s :: rs else s :: insertResource r rs

def sortResources (rs : List ProjectResource) : List ProjectResource := rs.foldr insertResource []

/-- Puts an entry in the place of the first one with its key, or at the end. A controller that was
recorded stays recorded. -/
def refresh (r : ProjectResource) : List ProjectResource → List ProjectResource
  | [] => [r]
  | s :: rs =>
    if s.gvk = r.gvk then { r with controller := s.controller || r.controller } :: rs
    else s :: refresh r rs

def upsert (p : ProjectFile) (r : ProjectResource) : ProjectFile :=
  { p with resources := sortResources (refresh r p.resources) }

/-- What the plugin is told about the workload. -/
def pluginConfig (configPath : String) : Yaml.Value :=
  .record [(.str "workloadConfigPath", .str configPath)]

def resourceEntry (w : Workload) (controllers : Bool) (r : Resource) : ProjectResource where
  api := some ⟨"v1", r.namespaced⟩
  controller := controllers
  domain := w.options.domain
  group := r.group
  kind := r.kind
  path := some s!"{w.repository}/apis/{r.group}/{r.version}"
  plural := some r.plural
  version := r.version

def record (p : ProjectFile) (w : Workload) (order : List Resource) (controllers : Bool)
    (configPath : String) : ProjectFile :=
  let base : ProjectFile := { p with
    repo := w.repository
    domain := p.domain <|> w.options.domain
    version := if p.version = "" then defaultVersion else p.version
    projectName := p.projectName <|> some w.name
    layout := if p.layout.contains pluginKey then p.layout else p.layout ++ [pluginKey]
    plugins := Json.insertMember pluginKey (pluginConfig configPath) p.plugins }
  (order.map (resourceEntry w controllers)).foldl upsert base

def sameTable : List (String × Yaml.Value) → List (String × Yaml.Value) → Bool
  | [], [] => true
  | (k, v) :: es, (l, w) :: fs => k = l && v.same w && sameTable es fs
  | _, _ => false

def same (p q : ProjectFile) : Bool :=
  p.domain = q.domain && p.layout = q.layout && sameTable p.plugins q.plugins &&
  p.projectName = q.projectName && p.repo = q.repo && p.resources = q.resources &&
  p.version = q.version && sameTable p.extra q.extra

end ProjectFile

end OperatorScaffold

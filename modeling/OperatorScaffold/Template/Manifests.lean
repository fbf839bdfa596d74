import OperatorScaffold.Schema
import OperatorScaffold.Template.Context
/-!
The templates of the YAML files, line by line. The manifest set has three regions of its own, and
behind them one for each marker that the resource declares.
-/

namespace OperatorScaffold.Template

def ruleLine (a : Awaited) : String :=
  s!"  - \x7b apiGroups: [\"{a.fullGroup}\"], resources: [\"{a.plural}\"], verbs: [\"get\", \"list\", \"watch\"] \x7d"

/-- The region of a declared marker; its default loses the blanks at its end. -/
def markerLines (m : CustomMarker) : List String :=
  let scope := m.scope.name
  let body := Text.trimEnd m.default
  ["---", s!"# +opforge:{scope}:begin:{m.name}"] ++ (if body = "" then [] else [body]) ++
    [s!"# +opforge:{scope}:end:{m.name}"]

/-- The manifests up to the schema. -/
def frameLines (c : Context) : List String :=
  let r := c.resource
  let (kind, singular, plural) := (r.kind, r.singular, r.plural)
  let (full, version, scope) := (r.fullGroup, r.version, r.scope)
  [s!"# Manifests for {kind}.{full}.",
   "# Content between opforge marker lines survives regeneration; everything",
   "# else is rewritten from the workload specification.",
   "---",
   "apiVersion: rbac.authorization.k8s.io/v1",
   "kind: ClusterRole",
   "metadata:",
   s!"  name: {singular}-editor-role",
   "  labels:",
   "    # +opforge:static:begin:role-labels",
   "    app.kubernetes.io/managed-by: opforge",
   "    # +opforge:static:end:role-labels",
   "rules:",
   s!"  - apiGroups: [\"{full}\"]",
   s!"    resources: [\"{plural}\", \"{plural}/status\"]",
   "    verbs: [\"create\", \"delete\", \"get\", \"list\", \"patch\", \"update\", \"watch\"]",
   "  # +opforge:dynamic:begin:dependency-rules"] ++
  c.dependencies.map ruleLine ++
  ["  # +opforge:dynamic:end:dependency-rules",
   "---",
   "apiVersion: apiextensions.k8s.io/v1",
   "kind: CustomResourceDefinition",
   "metadata:",
   s!"  name: {plural}.{full}",
   "  annotations:",
   "    # +opforge:static:begin:crd-annotations",
   "    # +opforge:static:end:crd-annotations",
   "spec:",
   s!"  group: {full}",
   "  names:",
   s!"    kind: {kind}",
   s!"    listKind: {kind}List",
   s!"    plural: {plural}",
   s!"    singular: {singular}",
   s!"  scope: {scope}",
   "  versions:",
   s!"    - name: {version}",
   "      served: true",
   "      storage: true",
   "      subresources:",
   "        status: \x7b\x7d",
   "      schema:"]

def schemaLines (fields : List Field) : List String :=
  ["        openAPIV3Schema:", Schema.yamlBlock (Schema.openApi fields) 10]

def manifestLines (c : Context) : List String :=
  frameLines c ++ schemaLines c.fields ++ c.markers.flatMap markerLines

/-- The lines of a sample's specification, which stands in the line of its key when it is empty. -/
def sampleSpecLines (fields : List Field) : List String :=
  let v := Schema.sample fields
  if v.isEmptyObj then ["spec: \x7b\x7d"] else ["spec:", Schema.yamlBlock v 2]

def sampleLines (c : Context) : List String :=
  let r := c.resource
  let (full, version, kind, singular) := (r.fullGroup, r.version, r.kind, r.singular)
  [s!"apiVersion: {full}/{version}",
   s!"kind: {kind}",
   "metadata:",
   s!"  name: {singular}-sample"] ++
  sampleSpecLines c.fields

end OperatorScaffold.Template

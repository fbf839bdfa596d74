import OperatorScaffold.Schema
import OperatorScaffold.Template.Context
/-!
The templates of the Go files, line by line.
-/

namespace OperatorScaffold.Template

def groupVersionLines (c : Context) : List String :=
  let (group, version, full) := (c.resource.group, c.resource.version, c.resource.fullGroup)
  [c.boilerplate,
   "",
   s!"// Package {version} contains API Schema definitions for the {group} {version} API group.",
   "// +kubebuilder:object:generate=true",
   s!"// +groupName={full}",
   s!"package {version}",
   "",
   "import (",
   "\t\"k8s.io/apimachinery/pkg/runtime/schema\"",
   "\t\"sigs.k8s.io/controller-runtime/pkg/scheme\"",
   ")",
   "",
   "var (",
   "\t// GroupVersion is group version used to register these objects.",
   s!"\tGroupVersion = schema.GroupVersion\x7bGroup: \"{full}\", Version: \"{version}\"\x7d",
   "",
   "\t// SchemeBuilder is used to add go types to the GroupVersionKind scheme.",
   "\tSchemeBuilder = &scheme.Builder\x7bGroupVersion: GroupVersion\x7d",
   "",
   "\t// AddToScheme adds the types in this group-version to the given scheme.",
   "\tAddToScheme = SchemeBuilder.AddToScheme",
   ")"]

def fieldLines (f : GoField) : List String :=
  f.comments.map (fun c => s!"\t// {c}") ++ [s!"\t{f.name} {f.type} `json:\"{f.jsonTag}\"`"]

def typeLines (t : GoType) : List String :=
  ["", s!"// {t.name} {t.doc}", s!"type {t.name} struct \x7b"] ++ t.fields.flatMap fieldLines ++ ["\x7d"]

def apiTypesLines (c : Context) : List String :=
  let (kind, plural, scope, version) :=
    (c.resource.kind, c.resource.plural, c.resource.scope, c.resource.version)
  [c.boilerplate,
   "",
   s!"package {version}",
   "",
   "import (",
   "\tmetav1 \"k8s.io/apimachinery/pkg/apis/meta/v1\"",
   ")",
   "",
   "// This file is regenerated from the workload specification on every run.",
   "// Change the workload document instead of editing it by hand."] ++
  (Schema.goTypes kind c.fields).flatMap typeLines ++
  ["",
   s!"// {kind}Status defines the observed state of {kind}.",
   s!"type {kind}Status struct \x7b",
   "\tCreated               bool               `json:\"created,omitempty\"`",
   "\tDependenciesSatisfied bool               `json:\"dependenciesSatisfied,omitempty\"`",
   "\tConditions            []metav1.Condition `json:\"conditions,omitempty\"`",
   "\x7d",
   "",
   "// +kubebuilder:object:root=true",
   "// +kubebuilder:subresource:status",
   s!"// +kubebuilder:resource:path={plural},scope={scope}",
   "",
   s!"// {kind} is the Schema for the {plural} API.",
   s!"type {kind} struct \x7b",
   "\tmetav1.TypeMeta   `json:\",inline\"`",
   "\tmetav1.ObjectMeta `json:\"metadata,omitempty\"`",
   "",
   s!"\tSpec   {kind}Spec   `json:\"spec,omitempty\"`",
   s!"\tStatus {kind}Status `json:\"status,omitempty\"`",
   "\x7d",
   "",
   "// +kubebuilder:object:root=true",
   "",
   s!"// {kind}List contains a list of {kind}.",
   s!"type {kind}List struct \x7b",
   "\tmetav1.TypeMeta `json:\",inline\"`",
   "\tmetav1.ListMeta `json:\"metadata,omitempty\"`",
   s!"\tItems           []{kind} `json:\"items\"`",
   "\x7d",
   "",
   "func init() \x7b",
   s!"\tSchemeBuilder.Register(&{kind}\x7b\x7d, &{kind}List\x7b\x7d)",
   "\x7d"]

def predicateLines (kind predicate : String) : List String :=
  ["",
   s!"// {predicate} reports whether a {kind} is ready for the resources that depend on it.",
   s!"func {predicate}(ctx context.Context, c client.Client, req ctrl.Request) (bool, error) \x7b",
   "\treturn true, nil",
   "\x7d"]

def dependencyLines (c : Context) : List String :=
  [c.boilerplate,
   "",
   "package dependencies",
   "",
   "import (",
   "\t\"context\"",
   "",
   "\tctrl \"sigs.k8s.io/controller-runtime\"",
   "\t\"sigs.k8s.io/controller-runtime/pkg/client\"",
   ")"] ++
  c.predicates.flatMap (predicateLines c.resource.kind)

def accessLine (a : Awaited) : String :=
  s!"// +kubebuilder:rbac:groups={a.fullGroup},resources={a.plural},verbs=get;list;watch"

def waitLines (a : Awaited) : List String :=
  ["",
   s!"\tif ready, err := dependencies.{a.readiness}(ctx, r.Client, req); err != nil \x7b",
   s!"\t\treturn ctrl.Result\x7b\x7d, fmt.Errorf(\"checking {a.kind} readiness: %w\", err)",
   "\t\x7d else if !ready \x7b",
   s!"\t\tlogger.Info(\"waiting for dependency\", \"dependency\", \"{a.kind}\")",
   "\t\treturn ctrl.Result\x7bRequeue: true\x7d, nil",
   "\t\x7d"]

def controllerLines (c : Context) : List String :=
  let (group, version, full) := (c.resource.group, c.resource.version, c.resource.fullGroup)
  let (kind, plural) := (c.resource.kind, c.resource.plural)
  let (package, api, repo) := (c.resource.package, c.resource.apiAlias, c.repository)
  let whenAwaiting := fun l => if c.dependencies.isEmpty then [] else [l]
  [c.boilerplate,
   "",
   s!"package {package}",
   "",
   "import (",
   "\t\"context\""] ++
  whenAwaiting "\t\"fmt\"" ++
  ["",
   "\t\"k8s.io/apimachinery/pkg/runtime\"",
   "\tctrl \"sigs.k8s.io/controller-runtime\"",
   "\t\"sigs.k8s.io/controller-runtime/pkg/client\"",
   "\t\"sigs.k8s.io/controller-runtime/pkg/log\"",
   "",
   s!"\t{api} \"{repo}/apis/{group}/{version}\""] ++
  whenAwaiting s!"\t\"{repo}/internal/dependencies\"" ++
  [")",
   "",
   s!"// {kind}Reconciler reconciles a {kind} object.",
   s!"type {kind}Reconciler struct \x7b",
   "\tclient.Client",
   "\tScheme *runtime.Scheme",
   "\x7d",
   "",
   s!"// +kubebuilder:rbac:groups={full},resources={plural},verbs=get;list;watch;create;update;patch;delete",
   s!"// +kubebuilder:rbac:groups={full},resources={plural}/status,verbs=get;update;patch"] ++
  c.dependencies.map accessLine ++
  ["",
   s!"// Reconcile moves the cluster state of a {kind} toward its desired state.",
   s!"func (r *{kind}Reconciler) Reconcile(ctx context.Context, req ctrl.Request) (ctrl.Result, error) \x7b",
   "\tlogger := log.FromContext(ctx)",
   "",
   s!"\tvar resource {api}.{kind}",
   "\tif err := r.Get(ctx, req.NamespacedName, &resource); err != nil \x7b",
   "\t\treturn ctrl.Result\x7b\x7d, client.IgnoreNotFound(err)",
   "\t\x7d"] ++
  c.dependencies.flatMap waitLines ++
  ["",
   s!"\t// Reconciliation logic for {kind} goes here.",
   "",
   "\tresource.Status.DependenciesSatisfied = true",
   "\tresource.Status.Created = true",
   "\tif err := r.Status().Update(ctx, &resource); err != nil \x7b",
   "\t\treturn ctrl.Result\x7b\x7d, err",
   "\t\x7d",
   "",
   "\tlogger.Info(\"reconciled\", \"name\", req.NamespacedName)",
   "\treturn ctrl.Result\x7b\x7d, nil",
   "\x7d",
   "",
   "// SetupWithManager registers the reconciler with the manager.",
   s!"func (r *{kind}Reconciler) SetupWithManager(mgr ctrl.Manager) error \x7b",
   "\treturn ctrl.NewControllerManagedBy(mgr).",
   s!"\t\tFor(&{api}.{kind}\x7b\x7d).",
   "\t\tComplete(r)",
   "\x7d"]

end OperatorScaffold.Template

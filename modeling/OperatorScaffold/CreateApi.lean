import OperatorScaffold.Generator.Finalize
import OperatorScaffold.Workload.Build
/-!
The command that scaffolds a workload into a project, phase by phase. A phase may run at any time;
one whose inputs are not there yet fails and does nothing.
-/

namespace OperatorScaffold

structure CreateApiOptions where
  workloadConfig : Path
  scaffold : ScaffoldOptions
  finalize : FinalizeOptions
  /-- Takes the place of the root's plural. -/
  plural : Option String
  /-- Takes the place of the root's scope. -/
  namespaced : Option Bool

structure CreateApi where
  options : CreateApiOptions
  registry : Template.Registry
  workload : Option Workload
  /-- The names of the resources in the order of generation. -/
  order : List String
  report : Option ScaffoldReport

namespace CreateApi

def start (o : CreateApiOptions) (g : Template.Registry) : CreateApi := ⟨o, g, none, [], none⟩

/-- What a phase comes to: whether it failed, and the command and the workspace it leaves. -/
abbrev Outcome := Except Error Unit × CreateApi × Workspace

def override (o : CreateApiOptions) (r : Resource) : Resource :=
  { r with plural := o.plural.getD r.plural, namespaced := o.namespaced.getD r.namespaced }

def injectConfig (c : CreateApi) (w : Workspace) : Outcome :=
  match Workload.parse w c.options.workloadConfig with
  | .error e => (.error (.parse e), c, w)
  | .ok l => (.ok (), { c with workload := some l }, w)

def injectResource (c : CreateApi) (w : Workspace) : Outcome :=
  match c.workload with
  | none => (.error (.phaseOrder .injectResource), c, w)
  | some l =>
    let l := l.mapRoot (override c.options)
    let c := { c with workload := some l }
    match l.validate with
    | .error e => (.error (.validation e), c, w)
    | .ok rs => (.ok (), { c with order := rs.map (·.name) }, w)

/-- The workload with its resources in order. -/
def ordered (c : CreateApi) (p : Phase) : Except Error (Workload × List Resource) :=
  match c.workload with
  | none => .error (.phaseOrder p)
  | some l => .ok (l, c.order.filterMap l.resource?)

def preScaffold (c : CreateApi) (w : Workspace) : Outcome :=
  match c.ordered .preScaffold with
  | .error e => (.error e, c, w)
  | .ok (l, rs) => (l.checkDestinations w rs c.options.scaffold, c, w)

def scaffold (c : CreateApi) (w : Workspace) : Outcome :=
  match c.ordered .scaffold with
  | .error e => (.error e, c, w)
  | .ok (l, rs) => match l.scaffold rs c.registry c.options.scaffold w with
    | (.error e, w) => (.error e, c, w)
    | (.ok report, w) => (.ok (), { c with report := some report }, w)

/-- The generators take the header of the scaffolding, unless they have one of their own. -/
def finalizeOptions (c : CreateApi) : FinalizeOptions :=
  { c.options.finalize with
    boilerplate := c.options.finalize.boilerplate <|> c.options.scaffold.boilerplate }

def postScaffold (c : CreateApi) (w : Workspace) : Outcome :=
  if c.report.isNone then (.error (.phaseOrder .postScaffold), c, w)
  else if c.options.scaffold.mode.dryRun || !c.options.scaffold.scope.api then (.ok (), c, w)
  else match Generator.finalize c.options.scaffold.output c.finalizeOptions w with
    | (.error e, w) => (.error (.finalize e), c, w)
    | (.ok (), w) => (.ok (), c, w)

def runPhase (c : CreateApi) (w : Workspace) : Phase → Outcome
  | .injectConfig => c.injectConfig w
  | .injectResource => c.injectResource w
  | .preScaffold => c.preScaffold w
  | .scaffold => c.scaffold w
  | .postScaffold => c.postScaffold w

/-- Runs phases up to the first that fails. -/
def runPhases (c : CreateApi) (w : Workspace) : List Phase → Outcome
  | [] => (.ok (), c, w)
  | p :: ps => match c.runPhase w p with
    | (.error e, c, w) => (.error e, c, w)
    | (.ok (), c, w) => c.runPhases w ps

def run (c : CreateApi) (w : Workspace) : Outcome :=
  c.runPhases w [.injectConfig, .injectResource, .preScaffold, .scaffold, .postScaffold]

end CreateApi

end OperatorScaffold

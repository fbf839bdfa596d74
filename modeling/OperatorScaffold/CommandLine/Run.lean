import OperatorScaffold.CommandLine.Command
import OperatorScaffold.Config
import OperatorScaffold.CreateApi
import OperatorScaffold.Environment
import OperatorScaffold.Lint
/-!
Running the commands of the program: what they print, what they leave in the workspace, and how they
fail. An option that is given wins over the configuration, which wins over the environment.
-/

namespace OperatorScaffold

inductive Failure where
  | config (cause : ConfigError)
  /-- A stage failed, in the course of what the context names. -/
  | stage (context : Option String) (cause : Error)
  | findings (message : String)

def Failure.chain : Failure → List String
  | .config e => e.message :: e.cause?.toList
  | .stage context e => context.toList ++ e.chain
  | .findings m => [m]

structure CommandResult where
  outcome : Except Failure Unit
  lines : List String
  space : Workspace

private def padTo (width : Nat) (s : String) : String :=
  s ++ .ofList (List.replicate (width - s.length) ' ')

/-- The report of a run, a line for each file and one with the counts. -/
def ScaffoldReport.lines (r : ScaffoldReport) (dryRun : Bool) : List String :=
  let mark := if dryRun then "[dry-run] " else ""
  let counts := ", ".intercalate <|
    [WriteOutcome.created, .updated, .unchanged, .skipped].map fun o => s!"{r.count o} {o.name}"
  r.records.map (fun x => s!"{mark}{padTo 9 x.outcome.name} {x.path.text}") ++ [mark ++ counts]

namespace CreateApiArguments

def finalizeOptions (a : CreateApiArguments) (c : Config) (env : Environment) : FinalizeOptions where
  deepCopy := (a.generateDeepCopy <|> c.generateDeepCopy).getD true
  manifests := (a.generateManifests <|> c.generateManifests).getD true
  controllerGen := (a.controllerGen <|> c.controllerGen <|> env.controllerGen?).getD
    FinalizeOptions.defaultGenerator
  boilerplate := none

def options (a : CreateApiArguments) (c : Config) (env : Environment) : CreateApiOptions where
  workloadConfig := a.workload
  scaffold := {
    output := (a.output <|> c.output).getD ⟨"."⟩
    mode := a.mode
    scope := Part.scope a.only
    boilerplate := a.boilerplate <|> c.boilerplate }
  finalize := a.finalizeOptions c env
  plural := a.plural
  namespaced := a.namespaced

def configuration (a : CreateApiArguments) (w : Workspace) : Except ConfigError Config := do
  match ← Config.locate w a.config a.workload with
  | none => return .blank
  | some p => return (← Config.load w p).getD .blank

def run (a : CreateApiArguments) (env : Environment) (w : Workspace) : CommandResult :=
  match a.configuration w with
  | .error e => ⟨.error (.config e), [], w⟩
  | .ok c => match (CreateApi.start (a.options c env) .builtin).run w with
    | (.error e, _, w) => ⟨.error (.stage (some s!"create-api failed for {a.workload.text}") e), [], w⟩
    | (.ok (), c, w) => ⟨.ok (), (c.report.map (·.lines a.mode.dryRun)).getD [], w⟩

end CreateApiArguments

def validateOrder (w : Workspace) (p : Path) : Except Failure (List String) := do
  let l ← (Workload.parse w p).mapError fun e => .stage (some s!"Failed to parse {p.text}") (.parse e)
  let order ← l.validate.mapError fun e =>
    .stage (some s!"{p.text} failed validation") (.validation e)
  return order.map fun r => s!"{r.name} ({r.gvk.text})"

private def numbered (n : Nat) : List String → List String
  | [] => []
  | l :: ls => s!"  {n}. {l}" :: numbered (n + 1) ls

private def runValidate (w : Workspace) (p : Path) : CommandResult :=
  match validateOrder w p with
  | .error e => ⟨.error e, [], w⟩
  | .ok order => ⟨.ok (), s!"✅ {p.text} is valid" :: "Generation order:" :: numbered 1 order, w⟩

private def runLint (w : Workspace) (p : Path) (failOnError errorsOnly : Bool) : CommandResult :=
  match Workload.parse w p with
  | .error e => ⟨.error (.stage none (.parse e)), [], w⟩
  | .ok l =>
    let issues := (Lint.issues l).filter fun i => !errorsOnly || i.severity = .error
    let outcome := match Lint.failure? issues with
      | some m => if failOnError then .error (.findings m) else .ok ()
      | none => .ok ()
    ⟨outcome, Lint.report issues, w⟩

def Command.run (env : Environment) (w : Workspace) : Command → CommandResult
  | .createApi a => a.run env w
  | .validate p => runValidate w p
  | .lint p failOnError errorsOnly => runLint w p failOnError errorsOnly

end OperatorScaffold

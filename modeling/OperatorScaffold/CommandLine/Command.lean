import OperatorScaffold.CommandLine.Arguments
import OperatorScaffold.Scaffold.Run
/-!
The commands of the program, and reading one from the arguments of the program.
-/

namespace OperatorScaffold

/-- A part of a project that can be scaffolded by itself. -/
inductive Part where
  | api
  | controller
  | dependencies
  | manifests
  | samples
  deriving DecidableEq

namespace Part

def all : List Part := [.api, .controller, .dependencies, .manifests, .samples]

def name : Part → String
  | .api => "api"
  | .controller => "controller"
  | .dependencies => "dependencies"
  | .manifests => "manifests"
  | .samples => "samples"

def ofName? (s : String) : Option Part := all.find? (·.name = s)

def scope : Option (List Part) → Scope
  | none => .all
  | some ps => {
    api := ps.contains .api
    manifests := ps.contains .manifests
    samples := ps.contains .samples
    dependencies := ps.contains .dependencies
    controllers := ps.contains .controller }

end Part

structure CreateApiArguments where
  workload : Path
  output : Option Path
  mode : WriteMode
  only : Option (List Part)
  generateDeepCopy : Option Bool
  generateManifests : Option Bool
  controllerGen : Option Path
  plural : Option String
  namespaced : Option Bool
  boilerplate : Option Path
  config : Option Path

inductive Command where
  | createApi (arguments : CreateApiArguments)
  | validate (workload : Path)
  | lint (workload : Path) (failOnError errorsOnly : Bool)

namespace Command

open CommandLine

private def help : OptionSpec := ⟨"help", some 'h', .help⟩

private def workloadConfig : OptionSpec := ⟨"workload-config", some 'w', .value .path⟩

def createApiOptions : List OptionSpec :=
  [workloadConfig, ⟨"output", some 'o', .value .path⟩, ⟨"force", some 'f', .flag⟩,
    ⟨"dry-run", none, .flag⟩, ⟨"only", none, .values (.word (Part.all.map (·.name)))⟩,
    ⟨"generate-deep-copy", none, .value .bool⟩, ⟨"generate-manifests", none, .value .bool⟩,
    ⟨"controller-gen", none, .value .path⟩, ⟨"plural", none, .value .text⟩,
    ⟨"namespaced", none, .value .bool⟩, ⟨"boilerplate", none, .value .path⟩,
    ⟨"config", none, .value .path⟩, help]

def validateOptions : List OptionSpec := [workloadConfig, help]

def lintOptions : List OptionSpec :=
  [workloadConfig, ⟨"fail-on-error", none, .flag⟩, ⟨"errors-only", none, .flag⟩, help]

def programOptions : List OptionSpec := [help, ⟨"version", some 'V', .version⟩]

private def path? (g : Given) (option : String) : Option Path := (g.value? option).map Path.mk

private def workload (g : Given) : Except Refusal Path :=
  match path? g workloadConfig.long with
  | some p => .ok p
  | none => .error (.missing workloadConfig.long)

private def createApiOf (g : Given) : Except Refusal Command :=
  return .createApi {
    workload := ← workload g
    output := path? g "output"
    mode := ⟨g.has "force", g.has "dry-run"⟩
    only := (g.lookup "only").map (·.filterMap Part.ofName?)
    generateDeepCopy := g.bool? "generate-deep-copy"
    generateManifests := g.bool? "generate-manifests"
    controllerGen := path? g "controller-gen"
    plural := g.value? "plural"
    namespaced := g.bool? "namespaced"
    boilerplate := path? g "boilerplate"
    config := path? g "config" }

private def validateOf (g : Given) : Except Refusal Command := return .validate (← workload g)

private def lintOf (g : Given) : Except Refusal Command :=
  return .lint (← workload g) (g.has "fail-on-error") (g.has "errors-only")

def reader? : String → Option (List OptionSpec × (Given → Except Refusal Command))
  | "create-api" => some (createApiOptions, createApiOf)
  | "validate" => some (validateOptions, validateOf)
  | "lint" => some (lintOptions, lintOf)
  | _ => none

/-- Whether a word stands where a command may stand. -/
def isName (w : String) : Bool := (reader? w).isSome || w = "help"

private def helpOn : List String → Refusal
  | [] => .help
  | [w] => if isName w then .help else .unknownCommand w
  | w :: x :: _ => .unknownCommand (if isName w then x else w)

/-- A first argument that is an option of the program itself. -/
private def ofOption (r : Except Refusal Progress) : Refusal :=
  match r with
  | .ok _ => .noCommand
  | .error e => e

def ofArguments : List String → Except Refusal Command
  | [] => .error .noCommand
  | a :: as => match shape a with
    | .escape => match as with
      | [] => .error .noCommand
      | w :: _ => .error (if isName w then .unknownArgument w else .unknownCommand w)
    | .long name attached => .error (ofOption (Progress.longOption programOptions ⟨[], none⟩ name attached))
    | .short letters => .error (ofOption (Progress.shortOptions programOptions ⟨[], none⟩ letters))
    | .word => match reader? a with
      | some (specs, make) => do make (← scan specs ⟨[], none⟩ as)
      | none => .error (if a = "help" then helpOn as else .unknownCommand a)

private def optionUsage (o : OptionSpec) : String :=
  let short := (o.short.map fun c => s!"-{c}, ").getD ""
  let value := if o.kind.takesValue then " <VALUE>" else ""
  s!"  {short}--{o.long}{value}"

private def commandUsage (name : String) : List String :=
  match reader? name with
  | some (specs, _) => ["", s!"{name}:"] ++ specs.map optionUsage
  | none => []

def usage : List String :=
  "Usage: opforge <COMMAND> [OPTIONS]" :: ["create-api", "validate", "lint"].flatMap commandUsage

end Command

end OperatorScaffold

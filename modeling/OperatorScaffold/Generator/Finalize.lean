import OperatorScaffold.Generator.Error
import OperatorScaffold.Scaffold.Run
import OperatorScaffold.Script.Run
/-!
The generators that run behind the scaffolding and derive code and manifests from the API types. The
steps do not depend on each other: one that fails does not stop the next, and all failures are told
together.
-/

namespace OperatorScaffold

inductive GeneratorStep where | deepCopy | manifests
  deriving DecidableEq

namespace GeneratorStep

def all : List GeneratorStep := [.deepCopy, .manifests]

def name : GeneratorStep → String
  | .deepCopy => "deep-copy"
  | .manifests => "manifests"

/-- The make target that does the same in a project. -/
def makeTarget : GeneratorStep → String
  | .deepCopy => "make generate"
  | .manifests => "make manifests"

/-- The header file of generated code, as seen from the project: its own, or else the given one. -/
def header? (w : Workspace) (root : Path) (boilerplate : Option Path) : Option String :=
  if w.isFile (root.join Boilerplate.relativePath) then some Boilerplate.relativePath.text
  else boilerplate.map fun p => (w.absolute p).text

def arguments (w : Workspace) (root : Path) (boilerplate : Option Path) : GeneratorStep → List String
  | .deepCopy =>
    let object := match header? w root boilerplate with
      | some h => s!"object:headerFile={h}"
      | none => "object"
    [object, "paths=./..."]
  | .manifests => ["rbac:roleName=manager-role", "crd", "paths=./...",
      "output:crd:artifacts:config=config/crd/bases"]

end GeneratorStep

structure FinalizeOptions where
  deepCopy : Bool
  manifests : Bool
  controllerGen : Path
  boilerplate : Option Path

namespace FinalizeOptions

def enabled (o : FinalizeOptions) : GeneratorStep → Bool
  | .deepCopy => o.deepCopy
  | .manifests => o.manifests

def defaultGenerator : Path := ⟨"controller-gen"⟩

end FinalizeOptions

namespace Generator

/-- A path of more than one part is one of a file; a single name is looked up. -/
def resolve (w : Workspace) (binary : Path) : Path :=
  if 1 < binary.parts.length then w.absolute binary else binary

private def blankSplit (s : String) : List String :=
  ((Text.splitWhere Text.isBlank s.toList).filter (!·.isEmpty)).map String.ofList

private def shells : List String :=
  ["/bin/sh", "/bin/bash", "/bin/dash", "/usr/bin/sh", "/usr/bin/bash", "/usr/bin/dash"]

/-- The options of the shell that the first line of a text names to run it. -/
def shellOptions? (text : String) : Option (List String) :=
  match Text.dropPrefix? "#!" (.ofList (text.toList.takeWhile (· != '\n'))) with
  | none => none
  | some rest => match blankSplit rest with
    | ["/usr/bin/env", shell] => if ["sh", "bash", "dash"].contains shell then some [] else none
    | shell :: options => if shells.contains shell then some options else none
    | [] => none

private def runFile (w : Workspace) (directory : Place) (binary : Path) (arguments : List String) :
    Except FileError (Script.Result × Workspace) := do
  match ← w.files.locate directory binary with
  | (_, .file content mode) =>
    if mode &&& 0o111 = 0 then throw .denied
    match content with
    | .text s => match shellOptions? s with
      | some options => return Script.execute w directory binary.text arguments options s
      | none => throw (if Text.hasPrefix "#!" s then .noEntry else .notProgram)
    | .binary _ => throw .notProgram
  | _ => throw .denied

/-- Runs a program in a directory; a bare name is one of the standard programs. -/
def run (w : Workspace) (root binary : Path) (arguments : List String) :
    Except FileError (Script.Result × Workspace) := do
  match ← w.locate root with
  | (directory, .directory) =>
    if binary.text.toList.contains '/' then runFile w directory binary arguments
    else match Script.Program.table.lookup binary.text with
      | some p =>
        if Script.Program.standsAlone binary.text then
          return Script.executeNamed w directory binary.text arguments p
        else throw .noEntry
      | none => throw .noEntry
  | _ => throw .notDirectory

private def judge (step : GeneratorStep) (r : Script.Result) : Option StepFailure :=
  let diagnostics := Text.repairUtf8 r.output ++ Text.repairUtf8 r.errors
  match r.ending with
  | .killed => some ⟨step.name, none, diagnostics⟩
  | .exited 0 => none
  | .exited n => some ⟨step.name, some n, diagnostics⟩

def runStep (root binary : Path) (o : FinalizeOptions) (step : GeneratorStep) :
    StateM Workspace (Option StepFailure) := fun w =>
  match run w root binary (step.arguments w root o.boilerplate) with
  | .error e => (some ⟨step.name, none, s!"{binary.text}: {e.message}"⟩, w)
  | .ok (r, w) => (judge step r, w)

def runSteps (root binary : Path) (o : FinalizeOptions) :
    List GeneratorStep → StateM Workspace (List StepFailure)
  | [] => return []
  | s :: ss => do
    let failure ← runStep root binary o s
    return failure.toList ++ (← runSteps root binary o ss)

def finalize (root : Path) (o : FinalizeOptions) : Action FinalizeError Unit := fun w =>
  let (failures, w) := runSteps root (resolve w o.controllerGen) o (GeneratorStep.all.filter o.enabled) w
  (if failures.isEmpty then .ok () else .error ⟨failures⟩, w)

end Generator

end OperatorScaffold

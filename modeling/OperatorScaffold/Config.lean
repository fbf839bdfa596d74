import OperatorScaffold.Files.Workspace
import OperatorScaffold.Toml.Reader
/-!
The configuration of a project: defaults for options that its runs always want, kept in a file beside
the workload's document. Relative paths in it start at the directory that holds the file.
-/

namespace OperatorScaffold

inductive ConfigError where
  /-- The file that was asked for is not there. -/
  | missing (path : Path)
  | unreadable (path : Path) (cause : FileError)
  | malformed (path : Path)
  /-- The directory of the file has no absolute path. -/
  | unresolved (directory : Path) (cause : FileError)
  deriving DecidableEq

namespace ConfigError

def message : ConfigError → String
  | .missing p => s!"config file {p.text} does not exist"
  | .unreadable p _ => s!"Failed to read {p.text}"
  | .malformed p => s!"Failed to parse {p.text}"
  | .unresolved p _ => s!"Failed to resolve {p.text}"

/-- The fault beneath, where it is one of its own. -/
def cause? : ConfigError → Option String
  | .missing _ => none
  | .unreadable _ e => some e.message
  | .malformed _ => some "<toml error>"
  | .unresolved _ e => some e.message

end ConfigError

structure Config where
  boilerplate : Option Path
  controllerGen : Option Path
  generateDeepCopy : Option Bool
  generateManifests : Option Bool
  output : Option Path
  deriving DecidableEq

namespace Config

def blank : Config := ⟨none, none, none, none, none⟩

def fileName : Path := ⟨"opforge.toml"⟩

private def known : List String :=
  ["boilerplate", "controller_gen", "generate_deep_copy", "generate_manifests", "output"]

private def path? (es : Toml.Entries) (k : String) : Option (Option Path) :=
  match es.lookup k with
  | none => some none
  | some (.text s) => some (some ⟨s⟩)
  | some (.bool _) => none

private def bool? (es : Toml.Entries) (k : String) : Option (Option Bool) :=
  match es.lookup k with
  | none => some none
  | some (.text _) => none
  | some (.bool b) => some (some b)

def ofEntries? (es : Toml.Entries) : Option Config := do
  if !es.all (known.contains ·.1) then none
  return {
    boilerplate := ← path? es "boilerplate"
    controllerGen := ← path? es "controller_gen"
    generateDeepCopy := ← bool? es "generate_deep_copy"
    generateManifests := ← bool? es "generate_manifests"
    output := ← path? es "output" }

def read (text : String) : Option Config := Toml.read text >>= ofEntries?

/-- The generator's path starts at the directory only if it has more than one part; a single name is
one to look up. -/
def resolve (directory : Path) (c : Config) : Config :=
  { c with
    boilerplate := c.boilerplate.map directory.join
    output := c.output.map directory.join
    controllerGen := c.controllerGen.map fun p => if 1 < p.parts.length then directory.join p else p }

def load (w : Workspace) (p : Path) : Except ConfigError (Option Config) :=
  if w.has p then do
    let text ← (w.readText p).mapError (.unreadable p)
    match read text with
    | none => throw (.malformed p)
    | some c =>
      let directory := Workspace.directoryOf p
      return some (c.resolve (← (w.canonical directory).mapError (.unresolved directory)))
  else return none

/-- The file of a run: the one that was asked for, or else the one beside the workload's document, if
it is there. -/
def locate (w : Workspace) (explicit : Option Path) (workload : Path) :
    Except ConfigError (Option Path) :=
  match explicit with
  | some p => if w.has p then .ok (some p) else .error (.missing p)
  | none => .ok ((workload.parent?.map (·.join fileName)).filter w.has)

end Config

end OperatorScaffold

import OperatorScaffold.Files.Path
import OperatorScaffold.Text.Blank
import OperatorScaffold.Text.CaseMap
/-!
What the environment of a run sets: the generator to run, and how the log is written.
-/

namespace OperatorScaffold

abbrev Environment := List (String × String)

/-- The generator to run, if one is named; a blank name counts as none. -/
def Environment.controllerGen? (env : Environment) : Option Path :=
  ((env.lookup "OPFORGE_CONTROLLER_GEN_BIN").filter (!Text.isBlankText ·)).map Path.mk

inductive LogFormat where | json | pretty
  deriving DecidableEq

namespace LogFormat

def name : LogFormat → String
  | .json => "Json"
  | .pretty => "Pretty"

/-- Any name but one is that of the pretty format. -/
def ofName (s : String) : LogFormat := if Text.toLower s = "json" then .json else .pretty

end LogFormat

structure LogSettings where
  level : String
  format : LogFormat
  /-- Tell where in the program an event arose. -/
  location : Bool
  deriving DecidableEq

namespace LogSettings

def standard : LogSettings := ⟨"info", .pretty, false⟩

def ofEnvironment (env : Environment) : LogSettings where
  level := (env.lookup "OPFORGE_LOG_LEVEL").getD standard.level
  format := ((env.lookup "OPFORGE_LOG_FORMAT").map .ofName).getD standard.format
  location := env.lookup "OPFORGE_LOG_LOCATION" == some "true"

/-- Whether warnings are shown: at every level but that of errors. -/
def showsWarnings (s : LogSettings) : Bool := Text.toLower s.level != "error"

end LogSettings

end OperatorScaffold

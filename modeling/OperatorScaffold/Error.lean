import OperatorScaffold.Generator.Error
import OperatorScaffold.Graph.Validation
import OperatorScaffold.Scaffold.Error
import OperatorScaffold.Workload.Error
/-!
Why a command fails, by the stage it fails in.
-/

namespace OperatorScaffold

inductive Phase where
  | injectConfig
  | injectResource
  | preScaffold
  | scaffold
  | postScaffold
  deriving DecidableEq

def Phase.name : Phase → String
  | .injectConfig => "inject_config"
  | .injectResource => "inject_resource"
  | .preScaffold => "pre_scaffold"
  | .scaffold => "scaffold"
  | .postScaffold => "post_scaffold"

inductive Error where
  | parse (cause : ParseError)
  | validation (cause : ValidationError)
  /-- The resource whose artifact failed, or the file that is shared. -/
  | scaffold (resource : String) (cause : ScaffoldError)
  | finalize (cause : FinalizeError)
  | phaseOrder (phase : Phase)

namespace Error

def message : Error → String
  | .parse e => e.message
  | .validation e => e.message
  | .scaffold resource e => s!"scaffolding {resource} failed: {e.message}"
  | .finalize e => e.message
  | .phaseOrder p => s!"phase '{p.name}' ran before its inputs were prepared"

def chain (e : Error) : List String :=
  e.message :: match e with
    | .parse c => c.cause?.toList
    | .scaffold _ c => c.message :: c.cause?.toList
    | _ => []

end Error

end OperatorScaffold

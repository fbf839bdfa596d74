import OperatorScaffold.Text.Blank
/-!
Failures of the generators that run behind the scaffolding.
-/

namespace OperatorScaffold

structure StepFailure where
  step : String
  /-- The exit status, unless the program could not be run or was killed. -/
  status : Option Int
  /-- What the program wrote, or why it could not be run. -/
  diagnostics : String
  deriving DecidableEq

def StepFailure.message (f : StepFailure) : String :=
  let head := match f.status with
    | some code => s!"{f.step} exited with status {code}"
    | none => s!"{f.step} could not be run"
  match Text.nonBlank? f.diagnostics with
  | some d => s!"{head}:\n{d}"
  | none => head

structure FinalizeError where
  failures : List StepFailure
  deriving DecidableEq

def FinalizeError.message (e : FinalizeError) : String :=
  let lines := "\n".intercalate (e.failures.map fun f => "  - " ++ f.message)
  s!"{e.failures.length} post-scaffold step(s) failed:\n{lines}"

end OperatorScaffold

import OperatorScaffold.Files.Path
/-!
What a run tells the user about besides its result.
-/

namespace OperatorScaffold

inductive Notice where
  | droppedRegion (path : Path) (region : String)
  | missingPredicate (path : Path) (predicate : String)
  deriving DecidableEq

def Notice.message : Notice → String
  | .droppedRegion .. => "dropping marker region no longer produced by the template"
  | .missingPredicate .. =>
    "dependency file exists but does not define a readiness predicate a dependent calls"

/-- The message with what it is about. -/
def Notice.line : Notice → String
  | .droppedRegion p region => s!"{message (.droppedRegion p region)} path={p.text} region={region}"
  | .missingPredicate p predicate =>
    s!"{message (.missingPredicate p predicate)} path={p.text} predicate={predicate}"

end OperatorScaffold

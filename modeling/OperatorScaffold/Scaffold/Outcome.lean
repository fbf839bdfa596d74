/-!
What became of a file that was scaffolded.
-/

namespace OperatorScaffold

inductive WriteOutcome where
  | created
  | updated
  /-- The file held the text already. -/
  | unchanged
  /-- The file is there and belongs to the user. -/
  | skipped
  deriving DecidableEq

def WriteOutcome.name : WriteOutcome → String
  | .created => "created"
  | .updated => "updated"
  | .unchanged => "unchanged"
  | .skipped => "skipped"

end OperatorScaffold

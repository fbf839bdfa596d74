import OperatorScaffold.Proofs.Workload.Loading
/-!
The document that a path leads to, with all its companions.
-/

namespace OperatorScaffold.Workload

/-- Loads a document while no other is being loaded. -/
def loadDocument (w : Workspace) (p : Path) : Except ParseError LinkedDocument :=
  ((loadFile w p []).get (isSome_loadFile w [] p)).1

end OperatorScaffold.Workload

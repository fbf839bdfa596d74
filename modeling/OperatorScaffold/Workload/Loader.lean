import OperatorScaffold.Files.Workspace
import OperatorScaffold.Json.Reader
import OperatorScaffold.Workload.Document
import OperatorScaffold.Workload.Error
import OperatorScaffold.Yaml.Reader
/-!
Loading a workload document with its companions. A companion in a file of its own is named relative
to the document that declares it; a document that comes up again while it is being loaded is an
error.
-/

namespace OperatorScaffold

/-- A document with its companions: those in files first, then those written inside it. -/
structure LinkedDocument where
  label : String
  declaration : Declaration
  companions : List LinkedDocument

namespace Workload

/-- Whether the name of a file says that it is YAML; any other is JSON. -/
def isYaml (p : Path) : Bool := p.extension? = some "yaml" || p.extension? = some "yml"

def readDocument (w : Workspace) (p : Path) : Except ParseError WorkloadDocument := do
  let text ← (w.readText p).mapError (.io p)
  if isYaml p then
    match Yaml.read text >>= WorkloadDocument.ofNode? with
    | some d => return d
    | none => throw (.yaml p)
  else
    match Json.read text >>= WorkloadDocument.ofNode? with
    | some d => return d
    | none => throw (.json p)

/-- Where the files that a document names are looked for. -/
def companionDirectory (document : Path) : Path := document.parent?.getD ⟨"."⟩

/-- A computation on the stack of the documents that are being loaded, the outermost first. It has no
result where more of them are being loaded than it is let: that this never happens is a theorem. -/
abbrev Loader := ExceptT ParseError (StateT (List Path) Option)

mutual

/-- Loads what a document names; `load` loads one from a file. -/
def loadCompanions (load : Path → Loader LinkedDocument) (declaredIn : Path) (label : String) :
    WorkloadDocument → Loader (List LinkedDocument)
  | ⟨_, files, inline⟩ => do
    let loaded ← files.mapM fun file => load ((companionDirectory declaredIn).join ⟨file⟩)
    return loaded ++ (← loadInline load declaredIn label 0 inline)

/-- The files that an inline document names are looked for beside the one it is written in. -/
def loadInline (load : Path → Loader LinkedDocument) (declaredIn : Path) (label : String) (i : Nat) :
    List WorkloadDocument → Loader (List LinkedDocument)
  | [] => return []
  | d :: ds => do
    let inlineLabel := s!"{label}#components[{i}]"
    let companions ← loadCompanions load declaredIn inlineLabel d
    return ⟨inlineLabel, d.declaration, companions⟩ :: (← loadInline load declaredIn label (i + 1) ds)

end

/-- Loads a document and its companions, with at most `depth` files below each other. -/
def loadWithin (w : Workspace) : Nat → Path → Loader LinkedDocument
  | 0, _ => fun _ => none
  | depth + 1, p => do
    let here ← liftM ((w.canonical p).mapError (ParseError.io p))
    let stack ← get
    if here ∈ stack then throw (.circularReference (stack.dropWhile (· ≠ here) ++ [here]))
    let document ← liftM (readDocument w here)
    set (stack ++ [here])
    -- the stack is put back also where a companion cannot be loaded
    (do let companions ← (loadCompanions (loadWithin w depth) here here.text document).run
        modify List.dropLast
        return companions.map (⟨here.text, document.declaration, ·⟩) :
      StateT (List Path) Option (Except ParseError LinkedDocument))

/-- Every file that is being loaded is at another place, so that there is no need to go deeper. -/
@[irreducible] def loadFile (w : Workspace) (p : Path) : Loader LinkedDocument := loadWithin w (w.places.length + 1) p

end Workload

end OperatorScaffold

import OperatorScaffold.Template.Go
import OperatorScaffold.Template.Manifests
/-!
Templates by their names. A rendering ends with exactly one line feed.
-/

namespace OperatorScaffold.Template

/-- A template renders a context or fails with a text. -/
abbrev Render := Context → Except String String

structure Registry where
  templates : List (String × Render)

namespace Registry

def empty : Registry := ⟨[]⟩

def register (g : Registry) (id : String) (r : Render) : Registry := ⟨(id, r) :: g.templates⟩

def contains (g : Registry) (id : String) : Bool := (g.templates.lookup id).isSome

end Registry

def joinLines (ls : List String) : String := String.intercalate "\n" ls

def ofLines (lines : Context → List String) : Render := fun c => .ok (joinLines (lines c))

def builtinLines : ArtifactKind → Context → List String
  | .groupVersion => groupVersionLines
  | .apiTypes => apiTypesLines
  | .manifests => manifestLines
  | .sample => sampleLines
  | .dependencies => dependencyLines
  | .controller => controllerLines

def Registry.builtin : Registry :=
  ⟨(.groupVersion :: ArtifactKind.perResource).map fun k => (k.template, ofLines (builtinLines k))⟩

def isEndBlank (c : Char) : Bool := c == '\n' || c == '\r' || c == ' ' || c == '\t'

def withOneNewline (s : String) : String := Text.dropEnd isEndBlank s ++ "\n"

inductive RenderError where
  | unknown (id : String)
  | failed (id reason : String)
  deriving DecidableEq

def RenderError.message : RenderError → String
  | .unknown id => s!"unknown template '{id}'"
  | .failed id reason => s!"template '{id}' failed to render: {reason}"

def Registry.render (g : Registry) (id : String) (c : Context) : Except RenderError String :=
  match g.templates.lookup id with
  | none => .error (.unknown id)
  | some r => match r c with
    | .error reason => .error (.failed id reason)
    | .ok text => .ok (withOneNewline text)

end OperatorScaffold.Template

import OperatorScaffold.Naming
import OperatorScaffold.Text.Blank
/-!
Texts with marked regions. A region stands between two comment lines that carry its scope and its
name; regions do not nest, and no two of a text share a name. A document keeps every line as it was
written, so `render` gives the text back.
-/

namespace OperatorScaffold.Marker

open Text Naming

/-- A static region keeps the body found on disk; a dynamic one also gains the fresh lines it lacks. -/
inductive Scope where | static | dynamic
  deriving DecidableEq

def Scope.name : Scope → String
  | .static => "static"
  | .dynamic => "dynamic"

def Scope.ofName? : String → Option Scope
  | "static" => some .static
  | "dynamic" => some .dynamic
  | _ => none

inductive Side where | opening | closing
  deriving DecidableEq

def Side.word : Side → String
  | .opening => "begin"
  | .closing => "end"

/-- What a marker line says. -/
structure Delimiter where
  scope : Scope
  side : Side
  name : String
  deriving DecidableEq

def isNameChar (c : Char) : Bool := isAlphanumeric c || c == '_' || c == '.' || c == '-'

def isName (s : String) : Bool := s.toList.head?.any isAlphanumeric && s.toList.all isNameChar

def dropText? (pre : String) (cs : List Char) : Option (List Char) :=
  if pre.toList.isPrefixOf cs then some (cs.drop pre.toList.length) else none

def oneOf? {α : Type} (word : α → String) (choices : List α) (cs : List Char) :
    Option (α × List Char) :=
  choices.findSome? fun a => (dropText? (word a) cs).map fun rest => (a, rest)

/-- A marker line is a comment of its own: `// +opforge:static:begin:name`, or with `#`, and blanks
around the parts. -/
def delimiter? (line : String) : Option Delimiter := do
  let cs := line.toList.dropWhile isBlank
  let cs ← dropText? "//" cs <|> dropText? "#" cs
  let cs ← dropText? "+opforge:" (cs.dropWhile isBlank)
  let (scope, cs) ← oneOf? (·.name ++ ":") [.static, .dynamic] cs
  let (side, cs) ← oneOf? (·.word ++ ":") [.opening, .closing] cs
  let name := String.ofList (cs.takeWhile isNameChar)
  if isName name && (cs.dropWhile isNameChar).all isBlank then some ⟨scope, side, name⟩ else none

/-- A region with its two marker lines; `line` is the number of the opening one. -/
structure Region where
  name : String
  scope : Scope
  opening : String
  body : List String
  closing : String
  line : Nat
  deriving DecidableEq

def Region.lines (r : Region) : List String := r.opening :: r.body ++ [r.closing]

inductive Segment where
  | text (lines : List String)
  | region (r : Region)
  deriving DecidableEq

def Segment.lines : Segment → List String
  | .text ls => ls
  | .region r => r.lines

def Segment.region? : Segment → Option Region
  | .text _ => none
  | .region r => some r

abbrev Document := List Segment

namespace Document

def lines (d : Document) : List String := d.flatMap Segment.lines

def render (d : Document) : String := String.join d.lines

def regions (d : Document) : List Region := d.filterMap Segment.region?

def region? (d : Document) (name : String) : Option Region := d.regions.find? (·.name = name)

end Document

inductive Error where
  | unclosed (name : String) (line : Nat)
  | unexpectedEnd (name : String) (line : Nat)
  | mismatchedEnd (opened found : String) (line : Nat)
  | scopeMismatch (name : String) (opened closed : Scope) (line : Nat)
  | nested (outer inner : String) (line : Nat)
  | duplicate (name : String) (line : Nat)
  deriving DecidableEq

def Error.message : Error → String
  | .unclosed name line => s!"line {line}: marker region '{name}' is never closed"
  | .unexpectedEnd name line => s!"line {line}: end marker '{name}' has no matching begin"
  | .mismatchedEnd opened found line =>
    s!"line {line}: end marker '{found}' does not close open region '{opened}'"
  | .scopeMismatch name opened closed line =>
    let (first, last) := (opened.name, closed.name)
    s!"line {line}: region '{name}' opens as {first} but closes as {last}"
  | .nested outer inner line => s!"line {line}: region '{inner}' is nested inside '{outer}'"
  | .duplicate name line => s!"line {line}: marker region '{name}' appears more than once"

namespace Document

/-- One more line of text in front. -/
def consLine (l : String) : Document → Document
  | .text ls :: d => .text (l :: ls) :: d
  | d => .text [l] :: d

mutual

/-- Reads on outside of regions; `n` is the number of the next line. -/
def outside (seen : List String) (n : Nat) : List String → Except Error Document
  | [] => .ok []
  | l :: ls => match delimiter? l with
    | none => return consLine l (← outside seen (n + 1) ls)
    | some ⟨_, .closing, name⟩ => .error (.unexpectedEnd name n)
    | some ⟨scope, .opening, name⟩ =>
      if name ∈ seen then .error (.duplicate name n)
      else inside (name :: seen) (n + 1) ⟨name, scope, l, [], "", n⟩ ls

/-- Reads on inside `r`, whose body ends with the line before. -/
def inside (seen : List String) (n : Nat) (r : Region) : List String → Except Error Document
  | [] => .error (.unclosed r.name r.line)
  | l :: ls => match delimiter? l with
    | none => inside seen (n + 1) { r with body := r.body ++ [l] } ls
    | some ⟨_, .opening, name⟩ => .error (.nested r.name name n)
    | some ⟨scope, .closing, name⟩ =>
      if r.name ≠ name then .error (.mismatchedEnd r.name name n)
      else if r.scope ≠ scope then .error (.scopeMismatch r.name r.scope scope n)
      else return .region { r with closing := l } :: (← outside seen (n + 1) ls)

end

def ofLines (ls : List String) : Except Error Document := outside [] 1 ls

def parse (text : String) : Except Error Document := ofLines ((chunks text.toList).map .ofList)

end Document

end OperatorScaffold.Marker

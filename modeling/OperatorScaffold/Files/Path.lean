import OperatorScaffold.Text.Lines
/-!
Paths as texts, and their parts. A path keeps the text it was given; two paths are alike when their
parts are.
-/

namespace OperatorScaffold

structure Path where
  text : String
  deriving DecidableEq

namespace Path

open Text

def pieces (p : Path) : List (List Char) := splitWhere (· == '/') p.text.toList

def isAbsolute (p : Path) : Bool := p.text.toList.head? == some '/'

def endsWithSlash (p : Path) : Bool := p.text.toList.getLast? == some '/'

def isIdle (piece : List Char) : Bool := piece.isEmpty || piece == ['.']

/-- The parts of a path: the root is `/`, a leading dot of a relative path stays, and any other
empty part or dot is left out. -/
def parts (p : Path) : List String :=
  match p.pieces with
  | [] => []
  | first :: rest =>
    let names := (rest.filter (!isIdle ·)).map String.ofList
    if p.isAbsolute then "/" :: names
    else if first.isEmpty then names
    else .ofList first :: names

/-- The names between the slashes, dots among them. -/
def names (p : Path) : List String := (p.pieces.filter (!·.isEmpty)).map String.ofList

/-- The names that a walk goes along; a slash at the end asks for a directory. -/
def steps (p : Path) : List String := if p.endsWithSlash then p.names ++ ["."] else p.names

/-- The path that leads from the root to a place. -/
def ofPlace (names : List String) : Path := ⟨"/" ++ "/".intercalate names⟩

def alike (p q : Path) : Bool := p.parts == q.parts

/-- The path `q` as seen from `p`; an absolute one stands for itself. -/
def join (p q : Path) : Path :=
  if q.isAbsolute then q
  else if p.text = "" || p.endsWithSlash then ⟨p.text ++ q.text⟩
  else ⟨p.text ++ "/" ++ q.text⟩

def joinAll (p : Path) (names : List String) : Path := names.foldl (fun acc n => acc.join ⟨n⟩) p

def slashJoin : List (List Char) → List Char
  | [] => []
  | [p] => p
  | p :: ps => p ++ '/' :: slashJoin ps

/-- Backwards, without the idle parts at the end; the first piece stays. -/
def dropIdle : List (List Char) → List (List Char)
  | [] => []
  | [first] => [first]
  | p :: ps => if isIdle p then dropIdle ps else p :: ps

/-- The path without its last part, if it has one other than the root. -/
def parent? (p : Path) : Option Path :=
  match dropIdle p.pieces.reverse with
  | [] => none
  | [first] => if first.isEmpty then none else some ⟨""⟩
  | _ :: rest => match dropIdle rest with
    | [[]] => some ⟨"/"⟩
    | ps => some ⟨.ofList (slashJoin ps.reverse)⟩

def climb : Nat → Path → List Path
  | 0, _ => []
  | fuel + 1, p => match p.parent? with
    | none => []
    | some q => if q.text = "" then [p] else p :: climb fuel q

/-- The path and its parents, without the root and the empty path. -/
def ancestors (p : Path) : List Path := climb (p.text.length + 1) p

/-- The last part, where it is a name. -/
def fileName? (p : Path) : Option String :=
  match p.parts.getLast? with
  | none => none
  | some n => if n = "/" || n = "." || n = ".." then none else some n

def ofParts : List String → Path
  | "/" :: names => ofPlace names
  | names => ⟨"/".intercalate names⟩

/-- The path as seen from a directory that holds it. -/
def below? (p directory : Path) : Option Path :=
  if directory.parts.isPrefixOf p.parts then some (ofParts (p.parts.drop directory.parts.length))
  else none

/-- What follows the last dot of the file name; a dot at its start does not count. -/
def extension? (p : Path) : Option String := do
  let cs := (← p.fileName?).toList.reverse
  match cs.dropWhile (· != '.') with
  | [] => none
  | [_] => none
  | _ => some (.ofList (cs.takeWhile (· != '.')).reverse)

end Path

end OperatorScaffold

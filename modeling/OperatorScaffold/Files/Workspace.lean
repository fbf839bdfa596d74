import OperatorScaffold.Files.Tree
import OperatorScaffold.Notice
/-!
The workspace that a run reads and changes. Reading is a function of the workspace; what changes it
is an action, which leaves a workspace also where it fails.
-/

namespace OperatorScaffold

structure Workspace where
  files : FileTree
  /-- Where relative paths start. -/
  directory : Place
  /-- The notices given so far. -/
  notices : List Notice

/-- A computation that may fail, and keeps what it did until then. -/
abbrev Action (ε α : Type) := ExceptT ε (StateM Workspace) α

def liftExcept {ε α : Type} (x : Except ε α) : Action ε α := fun w => (x, w)

def Action.relabel {ε δ α : Type} (x : Action ε α) (f : ε → δ) : Action δ α := fun w =>
  let (r, w) := x w
  (r.mapError f, w)

namespace Workspace

def locate (w : Workspace) (p : Path) : Except FileError (Place × Entry) :=
  w.files.locate w.directory p

/-- The absolute path without links and dots. -/
def canonical (w : Workspace) (p : Path) : Except FileError Path :=
  return .ofPlace (← w.locate p).1

/-- A place and those above it. -/
def above (p : Place) : List Place := (List.range (p.length + 1)).map p.take

/-- The paths of all places that a walk can end at. -/
def places (w : Workspace) : List Path :=
  ((w.directory :: w.files.entries.map (·.1)).flatMap above).map .ofPlace

def has (w : Workspace) (p : Path) : Bool := (w.locate p).isOk

def isFile (w : Workspace) (p : Path) : Bool :=
  match w.locate p with
  | .ok (_, .file ..) => true
  | _ => false

def isDirectory (w : Workspace) (p : Path) : Bool :=
  match w.locate p with
  | .ok (_, .directory) => true
  | _ => false

def readText (w : Workspace) (p : Path) : Except FileError String :=
  match w.locate p with
  | .error e => .error e
  | .ok (_, .file (.text s) _) => .ok s
  | .ok (_, .file (.binary _) _) => .error .notText
  | .ok (_, _) => .error .isDirectory

/-- A relative path as seen from the root. -/
def absolute (w : Workspace) (p : Path) : Path := (Path.ofPlace w.directory).join p

def notify (w : Workspace) (n : Notice) : Workspace := { w with notices := w.notices ++ [n] }

def put (w : Workspace) (p : Place) (e : Entry) : Workspace := { w with files := w.files.put p e }

def makeDirectory (w : Workspace) (p : Path) : Except FileError Workspace := do
  match ← w.files.slot w.directory p with
  | .nameless => throw .alreadyExists
  | .named d n _ =>
    if (w.files.at? (d ++ [n])).isSome then throw .alreadyExists
    return w.put (d ++ [n]) .directory

/-- Makes a directory and those above it; the path comes first, then its parents. -/
def makeDirectories : List Path → Action FileError Unit
  | [], w => (.ok (), w)
  | p :: ps, w => match w.makeDirectory p with
    | .ok w => (.ok (), w)
    | .error .noEntry => match makeDirectories ps w with
      | (.error e, w) => (.error e, w)
      | (.ok (), w) => match w.makeDirectory p with
        | .ok w => (.ok (), w)
        | .error e => (if w.isDirectory p then .ok () else .error e, w)
    | .error e => (if w.isDirectory p then .ok () else .error e, w)

def newFileMode : Nat := 0o644

def modeAt (w : Workspace) (p : Path) : Nat :=
  match w.locate p with
  | .ok (_, .file _ m) => m
  | .ok (_, .directory) => 0o755
  | _ => newFileMode

/-- Puts a file at a path in one step, over a file or a link that is there. -/
def install (w : Workspace) (p : Path) (e : Entry) : Except FileError Workspace := do
  match ← w.files.slot w.directory p with
  | .nameless => throw .busy
  | .named d n slash =>
    if slash then throw .notDirectory
    if w.files.at? (d ++ [n]) = some .directory then throw .isDirectory
    return w.put (d ++ [n]) e

def directoryOf (p : Path) : Path :=
  match p.parent? with
  | some q => if q.text = "" then ⟨"."⟩ else q
  | none => ⟨"."⟩

/-- Writes a text to a path, in a directory made for it. The mode of a file that was there stays. A
failure names the path it came from. -/
def writeText (p : Path) (text : String) : Action (Path × FileError) Unit := fun w =>
  let directory := directoryOf p
  match makeDirectories directory.ancestors w with
  | (.error e, w) => (.error (directory, e), w)
  | (.ok (), w) => match w.install p (.file (.text text) (w.modeAt p)) with
    | .error e => (.error (p, e), w)
    | .ok w => (.ok (), w)

end Workspace

end OperatorScaffold

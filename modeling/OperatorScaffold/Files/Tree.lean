import OperatorScaffold.Files.Error
import OperatorScaffold.Files.Path
import OperatorScaffold.Text.Utf8
/-!
A tree of files as a table from places to entries. A place is the list of the names on the way from
the root, and the root itself is always a directory.
-/

namespace OperatorScaffold

/-- What a file holds; bytes that are UTF-8 are kept as a text. -/
inductive Content where
  | text (s : String)
  | binary (bytes : List UInt8)
  deriving DecidableEq

namespace Content

def ofBytes (bytes : List UInt8) : Content :=
  match Text.decodeUtf8? bytes with
  | some s => .text s
  | none => .binary bytes

def bytes : Content → List UInt8
  | .text s => Text.encodeUtf8 s
  | .binary bs => bs

end Content

inductive Entry where
  | file (content : Content) (mode : Nat)
  | directory
  | link (target : Path)
  deriving DecidableEq

abbrev Place := List String

structure FileTree where
  entries : List (Place × Entry)

namespace FileTree

def empty : FileTree := ⟨[]⟩

def at? (t : FileTree) (p : Place) : Option Entry :=
  if p = [] then some .directory else t.entries.lookup p

def putEntry (p : Place) (e : Entry) : List (Place × Entry) → List (Place × Entry)
  | [] => [(p, e)]
  | (q, x) :: es => if q = p then (p, e) :: es else (q, x) :: putEntry p e es

def put (t : FileTree) (p : Place) (e : Entry) : FileTree := ⟨putEntry p e t.entries⟩

/-- Takes away an entry with all that stands below it. -/
def erase (t : FileTree) (p : Place) : FileTree := ⟨t.entries.filter fun e => !p.isPrefixOf e.1⟩

def filesBelow (t : FileTree) (p : Place) : List (Place × Content) :=
  t.entries.filterMap fun e => match e.2 with
    | .file c _ => if p.isPrefixOf e.1 then some (e.1.drop p.length, c) else none
    | _ => none

def linkLimit : Nat := 40

/-- Walks along names from an entry; `jump` goes on behind a link. -/
def follow (t : FileTree) (jump : Place → List String → Except FileError (Place × Entry))
    (here : Place) (e : Entry) : List String → Except FileError (Place × Entry)
  | [] => .ok (here, e)
  | n :: ns => match e with
    | .directory =>
      if n = "." then follow t jump here e ns
      else if n = ".." then follow t jump here.dropLast .directory ns
      else if 255 < n.utf8ByteSize then .error .nameTooLong
      else match t.at? (here ++ [n]) with
        | none => .error .noEntry
        | some (.link target) => jump (if target.isAbsolute then [] else here) (target.steps ++ ns)
        | some next => follow t jump (here ++ [n]) next ns
    | _ => .error .notDirectory

def walk (t : FileTree) : Nat → Place → List String → Except FileError (Place × Entry)
  | 0, here, ns => follow t (fun _ _ => .error .tooManyLinks) here .directory ns
  | links + 1, here, ns => follow t (walk t links) here .directory ns

def origin (cwd : Place) (p : Path) : Place := if p.isAbsolute then [] else cwd

def refused? (p : Path) : Option FileError :=
  if p.text.toList.contains '\x00' then some .nulInName
  else if p.text = "" then some .noEntry
  else if 4096 ≤ p.text.utf8ByteSize then some .nameTooLong
  else none

/-- The place a path leads to, every link followed, and what stands there. -/
def locate (t : FileTree) (cwd : Place) (p : Path) : Except FileError (Place × Entry) :=
  match refused? p with
  | some e => .error e
  | none => walk t linkLimit (origin cwd p) p.steps

/-- Where an entry is to be made: its directory, and its name there. -/
inductive Slot where
  | named (directory : Place) (name : String) (slash : Bool)
  /-- The path ends in no name of its own. -/
  | nameless
  deriving DecidableEq

/-- The slot that a path names; its directory has to be there. -/
def slot (t : FileTree) (cwd : Place) (p : Path) : Except FileError Slot :=
  match refused? p with
  | some e => .error e
  | none => do
    let names := p.names
    let (directory, e) ← walk t linkLimit (origin cwd p) names.dropLast
    match names.getLast? with
    | none => return .nameless
    | some n =>
      if e ≠ .directory then throw .notDirectory
      if n = "." || n = ".." then return .nameless
      if 255 < n.utf8ByteSize then throw .nameTooLong
      return .named directory n p.endsWithSlash

end FileTree

end OperatorScaffold

import OperatorScaffold.Json.Value
/-!
The tree of a document, whichever notation it was written in. A scalar is known by what it can be
read as; the readers of fixed records and of free values are given here once for all notations.
-/

namespace OperatorScaffold.Document

/-- A scalar by what it can be read as. -/
structure Scalar where
  text? : Option String
  bool? : Option Bool
  /-- It leaves an optional entry out. -/
  absent : Bool
  /-- It stands for a list or record without entries. -/
  empty : Bool
  value? : Option Json

inductive Node where
  | scalar (s : Scalar)
  /-- A positional list can stand for a record; a tagged one has no free value. -/
  | list (positional tagged : Bool) (items : List Node)
  | record (tagged : Bool) (entries : List (Node × Node))

abbrev Entries := List (String × Node)

/-- A field of a record; in a positional list only a field with a default can be missing. -/
structure FieldName where
  name : String
  hasDefault : Bool

namespace Node

def text? : Node → Option String
  | .scalar s => s.text?
  | _ => none

def bool? : Node → Option Bool
  | .scalar s => s.bool?
  | _ => none

def isAbsent : Node → Bool
  | .scalar s => s.absent
  | _ => false

def items? : Node → Option (List Node)
  | .scalar s => if s.empty then some [] else none
  | .list _ _ items => some items
  | .record _ _ => none

mutual

/-- The free value of a node. Of two entries with one key the later one stays. -/
def value? : Node → Option Json
  | .scalar s => s.value?
  | .list _ tagged items => if tagged then none else return .arr (← values? items)
  | .record tagged entries => if tagged then none else return .ofMembers (← members? entries)

def values? : List Node → Option (List Json)
  | [] => some []
  | n :: ns => return (← n.value?) :: (← values? ns)

def members? : List (Node × Node) → Option (List (String × Json))
  | [] => some []
  | (k, v) :: es => return (← k.text?, ← v.value?) :: (← members? es)

end

mutual

def depth : Node → Nat
  | .scalar _ => 1
  | .list _ _ items => itemDepth items + 1
  | .record _ entries => entryDepth entries + 1

def itemDepth : List Node → Nat
  | [] => 0
  | n :: ns => max n.depth (itemDepth ns)

def entryDepth : List (Node × Node) → Nat
  | [] => 0
  | (_, v) :: es => max v.depth (entryDepth es)

end

private def named? (fields : List FieldName) : List (Node × Node) → Option (List (String × Node))
  | [] => some []
  | (k, v) :: es => do
    let name ← k.text?
    let rest ← named? fields es
    if fields.any (·.name == name) && !rest.any (·.1 == name) then some ((name, v) :: rest) else none

private def positioned? : List FieldName → List Node → Option (List (String × Node))
  | fs, [] => if fs.all (·.hasDefault) then some [] else none
  | [], _ :: _ => none
  | f :: fs, n :: ns => return (f.name, n) :: (← positioned? fs ns)

def fields? (fields : List FieldName) : Node → Option Entries
  | .scalar s => if s.empty then some [] else none
  | .list positional _ items => if positional then positioned? fields items else none
  | .record _ entries => named? fields entries

private def pickNamed? (fields : List String) : List (Node × Node) → Option (List (String × Node))
  | [] => some []
  | (k, v) :: es => do
    let name ← k.text?
    let rest ← pickNamed? fields es
    if !fields.contains name then some rest
    else if rest.any (·.1 == name) then none else some ((name, v) :: rest)

def someFields? (fields : List String) : Node → Option Entries
  | .scalar s => if s.empty then some [] else none
  | .list .. => none
  | .record _ entries => pickNamed? fields entries

end Node

namespace Entries

def optional {α : Type} (es : Entries) (name : String) (read : Node → Option α) : Option (Option α) :=
  match es.lookup name with
  | none => some none
  | some n => if n.isAbsent then some none else return some (← read n)

def required {α : Type} (es : Entries) (name : String) (read : Node → Option α) : Option α :=
  es.lookup name >>= read

def orElse {α : Type} (es : Entries) (name : String) (default : α) (read : Node → Option α) : Option α :=
  match es.lookup name with
  | none => some default
  | some n => read n

def listing {α : Type} (es : Entries) (name : String) (read : Node → Option α) : Option (List α) :=
  match es.lookup name with
  | none => some []
  | some n => do (← n.items?).mapM read

end Entries

end OperatorScaffold.Document

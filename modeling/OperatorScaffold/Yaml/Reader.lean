import OperatorScaffold.Document.Node
import OperatorScaffold.Yaml.Tree
import OperatorScaffold.Yaml.Value
/-!
Reading a YAML text as a document. Collections nest at most 128 deep, and the aliases that are
followed are at most a hundred times the events.
-/

namespace OperatorScaffold.Yaml

open Document

namespace StandardTag

def null : String := "tag:yaml.org,2002:null"
def bool : String := "tag:yaml.org,2002:bool"
def int : String := "tag:yaml.org,2002:int"
def float : String := "tag:yaml.org,2002:float"

end StandardTag

/-- A tag of the application's own. -/
def isLocalTag (tag : Option String) : Bool := tag.any (Text.hasPrefix "!")

/-- An integer of more than 64 bits is no value. -/
def Plain.toValue? (text : String) : Plain → Option Value
  | .null => some .null
  | .bool b => some (.bool b)
  | .word n => some (.int n)
  | .wide _ => none
  | .float x => some (.float x)
  | .infinite negative => some (.infinite negative)
  | .notANumber => some .notANumber
  | .text => some (.str text)

def bareValue? (style : ScalarStyle) (text : String) : Option Value :=
  if style = .plain then (Plain.resolve text).toValue? text else some (.str text)

/-- The value of a scalar whose tag, if it has one, is of the core schema. -/
def scalarValue? (tag : Option String) (style : ScalarStyle) (text : String) : Option Value :=
  match tag with
  | none => bareValue? style text
  | some t =>
    if t = StandardTag.bool then (Plain.bool? text).map .bool
    else if t = StandardTag.int then Plain.integer? text >>= Plain.toValue? text
    else if t = StandardTag.float then Plain.float? text >>= Plain.toValue? text
    else if t = StandardTag.null then (if Plain.isNullWord text then some .null else none)
    else some (.str text)

def freeValue (tag : Option String) (style : ScalarStyle) (text : String) : Option Json :=
  if isLocalTag tag then none else scalarValue? tag style text >>= Value.scalarJson?

/-- Any scalar can be read as a text, but of the texts tagged as null only null itself. -/
def scalarViews (tag : Option String) (style : ScalarStyle) (text : String) : Scalar where
  text? :=
    if style = .plain && tag = some StandardTag.null && !Plain.isNullWord text then none else some text
  bool? :=
    if style = .plain || (style = .literal && tag = some StandardTag.bool) then Plain.bool? text
    else none
  absent := style = .plain &&
    ((tag = none && text = "") || ((tag = none || tag = some StandardTag.null) && Plain.isNullWord text))
  empty := style = .plain && text = ""
  value? := freeValue tag style text

mutual

def Tree.toNode : Tree → Node
  | .scalar tag style text => .scalar (scalarViews tag style text)
  | .list tag items => .list false (isLocalTag tag) (nodesOf items)
  | .record tag entries => .record (isLocalTag tag) (entriesOf entries)
  | .alias t _ _ => t.toNode

def nodesOf : List Tree → List Node
  | [] => []
  | t :: ts => t.toNode :: nodesOf ts

def entriesOf : List (Tree × Tree) → List (Node × Node)
  | [] => []
  | (k, v) :: es => (k.toNode, v.toNode) :: entriesOf es

end

def withTag (tag : Option String) (v : Value) : Value :=
  match tag with
  | some t => if isLocalTag tag then .tagged t v else v
  | none => v

mutual

/-- The free value of a tree, whose records have no key twice. Tags of the application's own are
kept or refused. -/
def Tree.toValue? (keepTags : Bool) : Tree → Option Value
  | .scalar tag style text =>
    if !isLocalTag tag then scalarValue? tag style text
    else if keepTags then (bareValue? style text).map (withTag tag) else none
  | .list tag items =>
    if isLocalTag tag && !keepTags then none
    else return withTag tag (.list (← valuesOf? keepTags items))
  | .record tag entries =>
    if isLocalTag tag && !keepTags then none
    else return withTag tag (.record (← pairsOf? keepTags [] entries))
  | .alias t _ _ => t.toValue? keepTags

def valuesOf? (keepTags : Bool) : List Tree → Option (List Value)
  | [] => some []
  | t :: ts => return (← t.toValue? keepTags) :: (← valuesOf? keepTags ts)

def pairsOf? (keepTags : Bool) (seen : List Value) : List (Tree × Tree) → Option (List (Value × Value))
  | [] => some []
  | (k, v) :: es => do
    let key ← k.toValue? keepTags
    if seen.any key.same then none
    else return (key, ← v.toValue? keepTags) :: (← pairsOf? keepTags (key :: seen) es)

end

/-- The tree of a text of at most one document; a text without one is an empty scalar. -/
def readTree (text : String) : Option Tree := do
  match ← Tree.ofTokens (← TokenStream.ofText text) with
  | none => some (.scalar none .plain "")
  | some (t, events) =>
    if t.depth ≤ 128 && t.aliases ≤ 100 * events then some t else none

def read (text : String) : Option Node := (readTree text).map Tree.toNode

end OperatorScaffold.Yaml

import OperatorScaffold.Yaml.TokenStream
/-!
The node tree of a YAML document: the grammar of token streams, with tags resolved and aliases
bound to the nodes that they repeat.
-/

namespace OperatorScaffold.Yaml

inductive Tree where
  | scalar (tag : Option String) (style : ScalarStyle) (text : String)
  | list (tag : Option String) (items : List Tree)
  | record (tag : Option String) (entries : List (Tree × Tree))
  /-- The node again, with how many aliases it holds and how deep it is. -/
  | alias (target : Tree) (aliases depth : Nat)

namespace Tree

mutual

def aliases : Tree → Nat
  | .scalar _ _ _ => 0
  | .list _ items => aliasesOfItems items
  | .record _ entries => aliasesOfEntries entries
  | .alias _ n _ => 1 + n

def aliasesOfItems : List Tree → Nat
  | [] => 0
  | t :: ts => t.aliases + aliasesOfItems ts

def aliasesOfEntries : List (Tree × Tree) → Nat
  | [] => 0
  | (k, v) :: es => k.aliases + v.aliases + aliasesOfEntries es

def depth : Tree → Nat
  | .scalar _ _ _ => 0
  | .list _ items => 1 + depthOfItems items
  | .record _ entries => 1 + depthOfEntries entries
  | .alias _ _ d => d

def depthOfItems : List Tree → Nat
  | [] => 0
  | t :: ts => max t.depth (depthOfItems ts)

def depthOfEntries : List (Tree × Tree) → Nat
  | [] => 0
  | (k, v) :: es => max (max k.depth v.depth) (depthOfEntries es)

end

/-- What reading has met so far. An anchor name stands for its latest node; a node that is still
open has no tree yet. -/
structure Reading where
  tokens : List Token
  handles : List (String × String)
  anchors : List (String × Nat)
  nodes : List (Nat × Tree)
  /-- Scalars and aliases count once, collections twice. -/
  events : Nat

abbrev Reader (α : Type) := StateT Reading Option α

def peek : Reader (Option Token) := return (← get).tokens.head?

def drop : Reader Unit := modify fun r => { r with tokens := r.tokens.drop 1 }

def expect (t : Token) : Reader Unit := do
  if (← peek) == some t then drop else failure

def emit (n : Nat) : Reader Unit := modify fun r => { r with events := r.events + n }

def nothing : Reader Tree := do
  emit 1
  return .scalar none .plain ""

def bindAnchor : Option String → Reader (Option Nat)
  | none => return none
  | some name => do
    let id := (← get).anchors.length
    modify fun r => { r with anchors := (name, id) :: r.anchors }
    return some id

def bindNode (id : Option Nat) (t : Tree) : Reader Tree := do
  match id with
  | none => return t
  | some i =>
    modify fun r => { r with nodes := (i, t) :: r.nodes }
    return t

def aliased (name : String) : Reader Tree := do
  let r ← get
  emit 1
  match r.anchors.lookup name >>= fun id => r.nodes.lookup id with
  | some t => return .alias t t.aliases t.depth
  | none => failure

def anchor? : Reader (Option String) := do
  match ← peek with
  | some (.anchor name) => drop; return some name
  | _ => return none

def tag? : Reader (Option String) := do
  match ← peek with
  | some (.tag handle suffix) =>
    drop
    if handle.isEmpty then return some suffix
    match (← get).handles.lookup handle with
    | some uri => return some (uri ++ suffix)
    | none => failure
  | _ => return none

/-- An anchor and a tag, in either order. -/
def properties : Reader (Option String × Option String) := do
  match ← anchor? with
  | some a => return (some a, ← tag?)
  | none =>
    match ← tag? with
    | some t => return (← anchor?, some t)
    | none => return (none, none)

def isKeyOrValue : Option Token → Bool
  | some .key => true
  | some .value => true
  | _ => false

mutual

def node (fuel : Nat) (inBlock indentless : Bool) : Reader Tree := do
  match fuel with
  | 0 => failure
  | fuel + 1 =>
    match ← peek with
    | some (.alias name) => drop; aliased name
    | _ =>
      let (name, tag) ← properties
      let id ← bindAnchor name
      match ← peek, inBlock, indentless with
      | some .blockEntry, _, true => emit 2; bindNode id (.list tag (← indentlessItems fuel))
      | some (.scalar style text), _, _ =>
        drop; emit 1
        bindNode id (.scalar tag style text)
      | some .openSequence, _, _ => drop; emit 2; bindNode id (.list tag (← flowItems fuel true))
      | some .openMapping, _, _ => drop; emit 2; bindNode id (.record tag (← flowEntries fuel true))
      | some .blockSequence, true, _ => drop; emit 2; bindNode id (.list tag (← blockItems fuel))
      | some .blockMapping, true, _ => drop; emit 2; bindNode id (.record tag (← blockEntries fuel))
      | _, _, _ =>
        if name.isSome || tag.isSome then
          emit 1
          bindNode id (.scalar tag .plain "")
        else failure

def blockItems (fuel : Nat) : Reader (List Tree) := do
  match fuel with
  | 0 => failure
  | fuel + 1 =>
    match ← peek with
    | some .blockEntry =>
      drop
      let item ← match ← peek with
        | some .blockEntry => nothing
        | some .blockEnd => nothing
        | _ => node fuel true false
      return item :: (← blockItems fuel)
    | some .blockEnd => drop; return []
    | _ => failure

def indentlessItems (fuel : Nat) : Reader (List Tree) := do
  match fuel with
  | 0 => failure
  | fuel + 1 =>
    match ← peek with
    | some .blockEntry =>
      drop
      let t ← peek
      let item ←
        if isKeyOrValue t || t == some .blockEntry || t == some .blockEnd then nothing
        else node fuel true false
      return item :: (← indentlessItems fuel)
    | _ => return []

/-- The key or the value of a block entry, which may be missing. -/
def blockPart (fuel : Nat) : Reader Tree := do
  match fuel with
  | 0 => failure
  | fuel + 1 =>
    let t ← peek
    if isKeyOrValue t || t == some .blockEnd then nothing else node fuel true true

def blockEntries (fuel : Nat) : Reader (List (Tree × Tree)) := do
  match fuel with
  | 0 => failure
  | fuel + 1 =>
    match ← peek with
    | some .key =>
      drop
      let k ← blockPart fuel
      let v ← match ← peek with
        | some .value => drop; blockPart fuel
        | _ => nothing
      return (k, v) :: (← blockEntries fuel)
    | some .blockEnd => drop; return []
    | _ => failure

/-- A single entry that stands in a flow sequence without braces. -/
def flowPair (fuel : Nat) : Reader Tree := do
  match fuel with
  | 0 => failure
  | fuel + 1 =>
    emit 2
    let t ← peek
    let k ←
      if t == some .value || t == some .flowEntry || t == some .closeSequence then do drop; nothing
      else node fuel false false
    let v ← match ← peek with
      | some .value =>
        drop
        let t ← peek
        if t == some .flowEntry || t == some .closeSequence then nothing else node fuel false false
      | _ => nothing
    return .record none [(k, v)]

def flowItems (fuel : Nat) (first : Bool) : Reader (List Tree) := do
  match fuel with
  | 0 => failure
  | fuel + 1 =>
    if (← peek) == some .closeSequence then drop; return [] else
    if !first then expect .flowEntry
    match ← peek with
    | some .key =>
      drop
      return (← flowPair fuel) :: (← flowItems fuel false)
    | some .closeSequence => drop; return []
    | _ => return (← node fuel false false) :: (← flowItems fuel false)

def flowEntries (fuel : Nat) (first : Bool) : Reader (List (Tree × Tree)) := do
  match fuel with
  | 0 => failure
  | fuel + 1 =>
    if (← peek) == some .closeMapping then drop; return [] else
    if !first then expect .flowEntry
    match ← peek with
    | some .key =>
      drop
      let t ← peek
      let k ←
        if t == some .value || t == some .flowEntry || t == some .closeMapping then nothing
        else node fuel false false
      let v ← match ← peek with
        | some .value =>
          drop
          let t ← peek
          if t == some .flowEntry || t == some .closeMapping then nothing else node fuel false false
        | _ => nothing
      return (k, v) :: (← flowEntries fuel false)
    | some .closeMapping => drop; return []
    | _ =>
      let k ← node fuel false false
      let v ← nothing
      return (k, v) :: (← flowEntries fuel false)

end

/-- The directives in front of a document; a version is given at most once, and so is a handle. -/
def directives : List Token → Bool → List (String × String) → Option (List (String × String) × List Token)
  | .version major minor :: ts, seen, hs =>
    if seen || major != 1 || (minor != 1 && minor != 2) then none else directives ts true hs
  | .tagHandle h uri :: ts, seen, hs =>
    if (hs.lookup h).isSome then none else directives ts seen ((h, uri) :: hs)
  | ts, _, hs => some (hs, ts)

def standardHandles : List (String × String) := [("!", "!"), ("!!", "tag:yaml.org,2002:")]

def isDirective : Token → Bool
  | .version _ _ => true
  | .tagHandle _ _ => true
  | _ => false

/-- An explicit document can be empty. -/
def content (fuel : Nat) : Reader Tree := do
  match ← peek with
  | none => nothing
  | some .documentStart => nothing
  | some .documentEnd => nothing
  | some t => if isDirective t then nothing else node fuel true false

/-- A stream without a document, or with one: its tree and the number of its events. -/
def ofTokens (ts : List Token) : Option (Option (Tree × Nat)) := do
  let fuel := 2 * ts.length + 4
  match ts with
  | [] => some none
  | t :: _ =>
    let explicit := isDirective t || t == .documentStart
    let (hs, rest) ← directives ts false []
    let rest ← if !explicit then some rest else match rest with
      | .documentStart :: rest => some rest
      | _ => none
    let read := if explicit then content fuel else node fuel true false
    let (tree, r) ← read.run ⟨rest, hs ++ standardHandles, [], [], 0⟩
    if r.tokens.all (· == .documentEnd) then some (some (tree, r.events)) else none

end Tree

end OperatorScaffold.Yaml

import OperatorScaffold.Yaml.Lexeme
/-!
The token stream of a YAML text. Indentation opens and closes block collections, and a node turns
out to be a mapping key only at the `:` behind it, so that its key token is put in afterwards.
-/

namespace OperatorScaffold.Yaml

/-- A node that can still become a mapping key. -/
structure PossibleKey where
  required : Bool
  /-- The place of the key token among the tokens. -/
  index : Nat
  line : Nat
  column : Nat
  offset : Nat

structure TokenStream where
  cursor : Cursor
  tokens : List Token
  /-- Columns of the open block collections, innermost first. -/
  indents : List Nat
  /-- The possible key of each open flow collection, innermost first, and of the block around them. -/
  keys : List (Option PossibleKey)
  keyAllowed : Bool

namespace TokenStream

def start (cs : List Char) : TokenStream := ⟨.ofText cs, [], [], [none], true⟩

def inFlow (s : TokenStream) : Bool := 1 < s.keys.length

def indent? (s : TokenStream) : Option Nat := s.indents.head?

/-- Tokens are kept backwards. -/
def push (s : TokenStream) (t : Token) : TokenStream := { s with tokens := t :: s.tokens }

/-- Puts a token in front of the one at `index`. -/
def insertAt (s : TokenStream) (index : Nat) (t : Token) : TokenStream :=
  let after := s.tokens.length - index
  { s with tokens := s.tokens.take after ++ t :: s.tokens.drop after }

/-- A possible key ends with its line, and after 1024 bytes. -/
def expire (c : Cursor) : Option PossibleKey → Option (Option PossibleKey)
  | none => some none
  | some k =>
    if k.line < c.line || k.offset + 1024 < c.offset then
      if k.required then none else some none
    else some (some k)

def expireKeys (s : TokenStream) : Option TokenStream :=
  return { s with keys := (← s.keys.mapM (expire s.cursor)) }

def dropKey (s : TokenStream) : Option TokenStream :=
  match s.keys with
  | some k :: ks => if k.required then none else some { s with keys := none :: ks }
  | _ => some s

def saveKey (s : TokenStream) : Option TokenStream :=
  if !s.keyAllowed then some s else do
  let required := !s.inFlow && s.indent? == some s.cursor.column
  let key : PossibleKey :=
    ⟨required, s.tokens.length, s.cursor.line, s.cursor.column, s.cursor.offset⟩
  let s ← s.dropKey
  some { s with keys := some key :: s.keys.drop 1 }

def closeBlocks (column : Option Nat) : List Nat → List Token → List Nat × List Token
  | [], ts => ([], ts)
  | i :: is, ts =>
    if column.all (· < i) then closeBlocks column is (.blockEnd :: ts) else (i :: is, ts)

/-- Closes the block collections that are indented deeper than `column`; `none` closes all. -/
def unindent (s : TokenStream) (column : Option Nat) : TokenStream :=
  if s.inFlow then s else
  let (indents, tokens) := closeBlocks column s.indents s.tokens
  { s with indents, tokens }

/-- Opens a block collection at a column that is deeper than the ones open. -/
def indentTo (s : TokenStream) (column index : Nat) (t : Token) : TokenStream :=
  if s.inFlow || s.indent?.any (column ≤ ·) then s
  else { s with indents := column :: s.indents }.insertAt index t

def allow (s : TokenStream) (b : Bool) : TokenStream := { s with keyAllowed := b }

def advance (s : TokenStream) (n : Nat) : TokenStream := { s with cursor := s.cursor.skip n }

def documentMarker (s : TokenStream) (t : Token) : Option TokenStream := do
  let s ← (s.unindent none).dropKey
  some (((s.allow false).advance 3).push t)

def directive (s : TokenStream) : Option TokenStream := do
  let s ← (s.unindent none).dropKey
  let (t, c) ← Lexeme.directive s.cursor
  some ({ s.allow false with cursor := c }.push t)

def openFlow (s : TokenStream) (t : Token) : Option TokenStream := do
  let s ← s.saveKey
  some (({ s.allow true with keys := none :: s.keys }.advance 1).push t)

def closeFlow (s : TokenStream) (t : Token) : Option TokenStream := do
  let s ← s.dropKey
  let keys := if s.inFlow then s.keys.drop 1 else s.keys
  some (({ s.allow false with keys }.advance 1).push t)

def flowEntry (s : TokenStream) : Option TokenStream := do
  let s ← s.dropKey
  some (((s.allow true).advance 1).push .flowEntry)

def blockEntry (s : TokenStream) : Option TokenStream := do
  if !s.inFlow && !s.keyAllowed then none
  let s ← (s.indentTo s.cursor.column s.tokens.length .blockSequence).dropKey
  some (((s.allow true).advance 1).push .blockEntry)

def explicitKey (s : TokenStream) : Option TokenStream := do
  if !s.inFlow && !s.keyAllowed then none
  let s ← (s.indentTo s.cursor.column s.tokens.length .blockMapping).dropKey
  some (((s.allow (!s.inFlow)).advance 1).push .key)

def value (s : TokenStream) : Option TokenStream :=
  match s.keys with
  | some k :: ks =>
    let s := { s.insertAt k.index .key with keys := none :: ks }
    let s := s.indentTo k.column k.index .blockMapping
    some (((s.allow false).advance 1).push .value)
  | _ =>
    if !s.inFlow && !s.keyAllowed then none else
    let s := s.indentTo s.cursor.column s.tokens.length .blockMapping
    some (((s.allow (!s.inFlow)).advance 1).push .value)

/-- A token that can be, or can start, a key. -/
def nodeStart (s : TokenStream) (read : Cursor → Option (Token × Cursor)) : Option TokenStream := do
  let s ← s.saveKey
  let (t, c) ← read s.cursor
  some ({ s.allow false with cursor := c }.push t)

def plain (s : TokenStream) : Option TokenStream := do
  let s ← s.saveKey
  let least := (s.indent?.map (· + 1)).getD 0
  let (t, newLine, c) ← Lexeme.plain s.inFlow least s.cursor
  some ({ s.allow newLine with cursor := c }.push t)

def block (s : TokenStream) (literal : Bool) : Option TokenStream := do
  let s ← s.dropKey
  let (t, c) ← Lexeme.block literal s.indent? s.cursor
  some ({ s.allow true with cursor := c }.push t)

def startsPlain (s : TokenStream) (x : Char) : Bool :=
  let c := s.cursor
  !("-?:,[]\x7b\x7d#&*!|>'\"%@\x60".toList.contains x) ||
    (x == '-' && !(c.peekAt? 1).any Cursor.isBlankChar) ||
    (!s.inFlow && (x == '?' || x == ':') && !c.gapAt 1)

def nextToken (s : TokenStream) (x : Char) : Option TokenStream :=
  let c := s.cursor
  if c.column == 0 && x == '%' then s.directive
  else if c.atMarker '-' then s.documentMarker .documentStart
  else if c.atMarker '.' then s.documentMarker .documentEnd
  else if x == '[' then s.openFlow .openSequence
  else if x == '\x7b' then s.openFlow .openMapping
  else if x == ']' then s.closeFlow .closeSequence
  else if x == '\x7d' then s.closeFlow .closeMapping
  else if x == ',' then s.flowEntry
  else if x == '-' && c.gapAt 1 then s.blockEntry
  else if x == '?' && (s.inFlow || c.gapAt 1) then s.explicitKey
  else if x == ':' && (s.inFlow || c.gapAt 1) then s.value
  else if x == '*' then s.nodeStart fun c => return (← Lexeme.anchorName c).map .alias id
  else if x == '&' then s.nodeStart fun c => return (← Lexeme.anchorName c).map .anchor id
  else if x == '!' then s.nodeStart (Lexeme.tag s.inFlow)
  else if x == '|' && !s.inFlow then s.block true
  else if x == '>' && !s.inFlow then s.block false
  else if x == '\'' then s.nodeStart (Lexeme.quoted true)
  else if x == '"' then s.nodeStart (Lexeme.quoted false)
  else if s.startsPlain x then s.plain
  else none

/-- Past blanks, comments and line breaks, and a byte order mark in front. A tab is a blank only
where no key can start. -/
def skipGap : Nat → TokenStream → TokenStream
  | 0, s => s
  | fuel + 1, s =>
    let c := if s.cursor.offset == 0 && s.cursor.atChar '\ufeff' then s.cursor.next else s.cursor
    let tabs := s.inFlow || !s.keyAllowed
    let c := (c.skipWhile fun x => x == ' ' || (tabs && x == '\t')).skipComment
    if c.atBreak then
      skipGap fuel { s with cursor := c.takeBreak.2, keyAllowed := s.keyAllowed || !s.inFlow }
    else { s with cursor := c }

def finish (s : TokenStream) : Option (List Token) := do
  let s ← (s.unindent none).dropKey
  some s.tokens.reverse

def run : Nat → TokenStream → Option (List Token)
  | 0, _ => none
  | fuel + 1, s => do
    let s ← (s.skipGap (s.cursor.rest.length + 1)).expireKeys
    let s := s.unindent (some s.cursor.column)
    match s.cursor.peek? with
    | none => s.finish
    | some x => run fuel (← s.nextToken x)

/-- Characters that may stand in a YAML text. -/
def isPrintable (c : Char) : Bool :=
  let n := c.toNat
  n == 0x09 || n == 0x0A || n == 0x0D || (0x20 ≤ n && n ≤ 0x7E) || n == 0x85 ||
  (0xA0 ≤ n && n ≤ 0xD7FF) || (0xE000 ≤ n && n ≤ 0xFFFD) || 0x10000 ≤ n

def ofText (text : String) : Option (List Token) :=
  let cs := text.toList
  if cs.all isPrintable then run (cs.length + 2) (start cs) else none

end TokenStream

end OperatorScaffold.Yaml

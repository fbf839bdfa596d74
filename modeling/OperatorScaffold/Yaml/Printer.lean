import OperatorScaffold.Yaml.Value
import OperatorScaffold.Yaml.Written
import OperatorScaffold.Decimal.Shortest
/-!
Writing YAML values in block style. Collections are indented by two columns, except for a list that
is the value of a key; a key of more than 128 bytes, or of several lines, is marked by `?`.
-/

namespace OperatorScaffold.Yaml

open Cursor (isBreakChar)

/-- The text written so far, backwards, and what the next characters depend on. -/
structure Pen where
  written : List Char
  column : Nat
  /-- The last character is a blank. -/
  spaced : Bool
  /-- Only indentation and indicators of items stand in the line. -/
  indenting : Bool

namespace Pen

def start : Pen := ⟨[], 0, true, true⟩

def put (p : Pen) (c : Char) : Pen := { p with written := c :: p.written, column := p.column + 1 }

def putAll (p : Pen) (cs : List Char) : Pen := cs.foldl put p

def lineBreak (p : Pen) (c : Char) : Pen := { p with written := c :: p.written, column := 0 }

def pad (p : Pen) (indent : Nat) : Pen :=
  p.putAll (List.replicate (indent - p.column) ' ')

/-- Goes to the start of an entry, in a new line unless this one holds no more than indicators. -/
def indentTo (p : Pen) (indent : Nat) : Pen :=
  let p :=
    if !p.indenting || indent < p.column || (p.column = indent && !p.spaced) then p.lineBreak '\n' else p
  { p.pad indent with spaced := true, indenting := true }

def indicator (p : Pen) (cs : List Char) (needsSpace spaces indents : Bool) : Pen :=
  let p := if needsSpace && !p.spaced then p.put ' ' else p
  { p.putAll cs with spaced := spaces, indenting := p.indenting && indents }

def plain (p : Pen) (s : String) : Pen :=
  let p := if p.spaced || s.isEmpty then p else p.put ' '
  { p.putAll s.toList with spaced := false, indenting := false }

/-- `broken` says that the character before is a line break. -/
def singleBody (indent : Nat) (p : Pen) (broken : Bool) : List Char → Pen
  | [] => if broken then p.indentTo indent else p
  | c :: cs =>
    if isBreakChar c then singleBody indent { p.lineBreak c with indenting := true } true cs
    else
      let p := if broken then p.indentTo indent else p
      let p := if c = '\'' then p.put '\'' else p
      singleBody indent { p.put c with indenting := false } false cs

def single (p : Pen) (indent : Nat) (s : String) : Pen :=
  let p := p.indicator ['\''] true false false
  (singleBody indent p false s.toList).indicator ['\''] false false false

def upperHexDigit (n : Nat) : Char := "0123456789ABCDEF".toList.getD n '0'

def hexDigits (n : Nat) : Nat → List Char
  | 0 => []
  | w + 1 => hexDigits (n / 16) w ++ [upperHexDigit (n % 16)]

def doubleChar (c : Char) : List Char :=
  match c with
  | '"' => ['\\', '"']
  | '\\' => ['\\', '\\']
  | '\x00' => ['\\', '0']
  | '\x07' => ['\\', 'a']
  | '\x08' => ['\\', 'b']
  | '\t' => ['\\', 't']
  | '\n' => ['\\', 'n']
  | '\x0b' => ['\\', 'v']
  | '\x0c' => ['\\', 'f']
  | '\r' => ['\\', 'r']
  | '\x1b' => ['\\', 'e']
  | '\x85' => ['\\', 'N']
  | '\u2028' => ['\\', 'L']
  | '\u2029' => ['\\', 'P']
  | c =>
    if isShown c then [c]
    else if c.toNat ≤ 0xFF then '\\' :: 'x' :: hexDigits c.toNat 2
    else if c.toNat ≤ 0xFFFF then '\\' :: 'u' :: hexDigits c.toNat 4
    else '\\' :: 'U' :: hexDigits c.toNat 8

def double (p : Pen) (s : String) : Pen :=
  let p := p.indicator ['"'] true false false
  (p.putAll (s.toList.flatMap doubleChar)).indicator ['"'] false false false

/-- The indentation is given when the text starts with a blank line or space, and the line breaks
at the end are told by a sign. -/
def literalHints (cs : List Char) : List Char :=
  let lead := if cs.head?.any (fun c => c == ' ' || isBreakChar c) then ['2'] else []
  let tail := match cs.reverse with
    | [] => ['-']
    | [c] => if isBreakChar c then ['+'] else ['-']
    | c :: d :: _ => if !isBreakChar c then ['-'] else if isBreakChar d then ['+'] else []
  lead ++ tail

def literalBody (indent : Nat) (p : Pen) (broken : Bool) : List Char → Pen
  | [] => p
  | c :: cs =>
    if isBreakChar c then literalBody indent { p.lineBreak c with indenting := true } true cs
    else
      let p := if broken then p.indentTo indent else p
      literalBody indent { p.put c with indenting := false } false cs

def literal (p : Pen) (indent : Nat) (s : String) : Pen :=
  let p := (p.indicator ['|'] true false false).putAll (literalHints s.toList)
  literalBody indent { p.lineBreak '\n' with spaced := true, indenting := true } true s.toList

/-- A text; `indent` is that of its own lines. -/
def text (p : Pen) (indent : Nat) (simpleKey : Bool) (s : String) : Pen :=
  match chooseStyle simpleKey s with
  | .plain => p.plain s
  | .single => p.single indent s
  | .double => p.double s
  | .literal => p.literal indent s

end Pen

namespace Value

def isSimpleKey : Value → Bool
  | .str s => !s.toList.any isBreakChar && s.utf8ByteSize ≤ 128
  | .list items => items.isEmpty
  | .record entries => entries.isEmpty
  | .tagged _ v => v.isSimpleKey
  | _ => true

/-- Where a node is written: behind the key of a record or not, and as a key itself. -/
structure Place where
  inRecord : Bool
  simpleKey : Bool

mutual

/-- `indent` is that of the collection around, if there is one. -/
def write (p : Pen) (indent : Option Nat) (place : Place) : Value → Pen
  | .str s => p.text ((indent.map (· + 2)).getD 2) place.simpleKey s
  | .list [] => (p.indicator ['['] true true false).indicator [']'] false false false
  | .record [] => (p.indicator ['\x7b'] true true false).indicator ['\x7d'] false false false
  | .list items =>
    let inner := match indent with
      | none => 0
      | some i => if place.inRecord && !p.indenting then i else i + 2
    writeItems p inner items
  | .record entries => writeEntries p ((indent.map (· + 2)).getD 0) entries
  | .null => p.plain "null"
  | .bool b => p.plain (if b then "true" else "false")
  | .int n => p.plain (toString n)
  | .float x => p.plain (Decimal.Style.yaml.write x)
  | .infinite negative => p.plain (if negative then "-.inf" else ".inf")
  | .notANumber => p.plain ".nan"
  | .tagged tag v => write (p.indicator tag.toList true false false) indent place v

def writeItems (p : Pen) (indent : Nat) : List Value → Pen
  | [] => p
  | v :: vs =>
    let p := (p.indentTo indent).indicator ['-'] true false true
    writeItems (write p (some indent) ⟨false, false⟩ v) indent vs

def writeEntries (p : Pen) (indent : Nat) : List (Value × Value) → Pen
  | [] => p
  | (k, v) :: es =>
    let p := p.indentTo indent
    let p :=
      if k.isSimpleKey then
        (write p (some indent) ⟨true, true⟩ k).indicator [':'] false false false
      else
        let p := write (p.indicator ['?'] true false true) (some indent) ⟨true, false⟩ k
        (p.indentTo indent).indicator [':'] true false true
    writeEntries (write p (some indent) ⟨true, false⟩ v) indent es

end

def render (v : Value) : String :=
  let p := (write .start none ⟨false, false⟩ v).indentTo 0
  .ofList p.written.reverse

end Value

end OperatorScaffold.Yaml

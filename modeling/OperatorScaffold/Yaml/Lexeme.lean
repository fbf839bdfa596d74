import OperatorScaffold.Yaml.Token
import OperatorScaffold.Naming
import OperatorScaffold.Text.Hex
import OperatorScaffold.Text.Utf8
/-!
Single tokens of a YAML text: directives, anchors, tags, and the four ways to write a scalar.
Each function starts at the first character of its token and ends behind it; `none` means that the
text is malformed.
-/

namespace OperatorScaffold.Yaml

open Naming

namespace Lexeme

def isWordChar (c : Char) : Bool := isAlphanumeric c || c == '-' || c == '_'

def numberOf (ds : List Char) : Nat := ds.foldl (fun n c => 10 * n + (c.toNat - '0'.toNat)) 0

/-- What names a node or refers to it. -/
def anchorName (c : Cursor) : Option (String × Cursor) :=
  let (cs, c) := c.next.takeWhile isWordChar
  let ended := c.atGap || c.peek?.any fun x => "?:,]\x7d%@\x60".toList.contains x
  if cs.isEmpty || !ended then none else some (.ofList cs, c)

def isUriChar (bracketed : Bool) (c : Char) : Bool :=
  isWordChar c || ";/?:@&=+$.!~*'()%".toList.contains c || (bracketed && ",[]".toList.contains c)

/-- Octets written as `%` and two digits each become characters again. -/
def unescapeUri : Nat → List Char → Option (List UInt8)
  | 0, _ => none
  | _ + 1, [] => some []
  | fuel + 1, '%' :: a :: b :: cs => do
    let (n, _) ← Text.takeHex 2 [a, b]
    return n.toUInt8 :: (← unescapeUri fuel cs)
  | fuel + 1, c :: cs =>
    if c == '%' then none else return (String.singleton c).toUTF8.toList ++ (← unescapeUri fuel cs)

def uri (bracketed : Bool) (c : Cursor) : Option (String × Cursor) := do
  let (cs, c) := c.takeWhile (isUriChar bracketed)
  let bytes ← unescapeUri (cs.length + 1) cs
  let s ← Text.decodeUtf8? bytes
  some (s, c)

def handle (c : Cursor) : Option (String × Cursor) :=
  if !c.atChar '!' then none else
  let (cs, c) := c.next.takeWhile isWordChar
  if c.atChar '!' then some (.ofList ('!' :: cs ++ ['!']), c.next) else some (.ofList ('!' :: cs), c)

def verbatimTag (c : Cursor) : Option (Token × Cursor) := do
  let (s, c) ← uri true (c.skip 2)
  if s.isEmpty || !c.atChar '>' then none else some (.tag "" s, c.next)

def shorthandTag (c : Cursor) : Option (Token × Cursor) := do
  let (h, c) ← handle c
  if 2 ≤ h.length && h.toList.getLast? == some '!' then
    let (s, c) ← uri false c
    if s.isEmpty then none else some (.tag h s, c)
  else
    let (s, c) ← uri false c
    let s := .ofList (h.toList.drop 1) ++ s
    some (if s.isEmpty then .tag "" "!" else .tag "!" s, c)

def tag (inFlow : Bool) (c : Cursor) : Option (Token × Cursor) := do
  let (t, c) ← if c.peekAt? 1 == some '<' then verbatimTag c else shorthandTag c
  if c.atGap || (inFlow && c.atChar ',') then some (t, c) else none

def versionNumber (c : Cursor) : Option (Nat × Cursor) :=
  let (ds, c) := c.takeWhile isDigit
  if ds.isEmpty || 9 < ds.length then none else some (numberOf ds, c)

def versionDirective (c : Cursor) : Option (Token × Cursor) := do
  let (major, c) ← versionNumber c.skipBlanks
  if !c.atChar '.' then none
  let (minor, c) ← versionNumber c.next
  some (.version major minor, c)

def tagDirective (c : Cursor) : Option (Token × Cursor) := do
  let (h, c) ← handle c.skipBlanks
  if h != "!" && h.toList.getLast? != some '!' then none
  if !c.atBlank then none
  let (s, c) ← uri true c.skipBlanks
  if s.isEmpty || !c.atGap then none else some (.tagHandle h s, c)

def lineEnd (c : Cursor) : Option Cursor :=
  let c := c.skipBlanks.skipComment
  if c.atLineEnd then some c.takeBreak.2 else none

def directive (c : Cursor) : Option (Token × Cursor) := do
  let (name, c) := c.next.takeWhile isWordChar
  if name.isEmpty || !c.atGap then none
  let (t, c) ←
    if name == "YAML".toList then versionDirective c
    else if name == "TAG".toList then tagDirective c
    else none
  some (t, ← lineEnd c)

/-- Line breaks and blanks between two parts of a scalar that runs over lines. -/
structure Fold where
  /-- Blanks of the line that the part before ends. -/
  blanks : List Char
  /-- Whether a line has ended since. -/
  broken : Bool
  first : List Char
  more : List Char

def Fold.start : Fold := ⟨[], false, [], []⟩

/-- One line feed becomes a space, and of several the first is dropped. -/
def Fold.text (f : Fold) : List Char :=
  if !f.broken then f.blanks
  else if f.first == ['\n'] then (if f.more.isEmpty then [' '] else f.more)
  else f.first ++ f.more

def Fold.addBreak (f : Fold) (b : List Char) : Fold :=
  if f.broken then { f with more := f.more ++ b } else { f with blanks := [], broken := true, first := b }

/-- Blanks and line breaks; `tabFrom` is the column from which a tab may stand in a new line. -/
def fold (tabFrom : Nat) : Nat → Fold → Cursor → Option (Fold × Cursor)
  | 0, _, _ => none
  | fuel + 1, f, c => match c.peek? with
    | none => some (f, c)
    | some x =>
      if Cursor.isBlankChar x then
        if f.broken then
          if x == '\t' && c.column < tabFrom then none else fold tabFrom fuel f c.next
        else fold tabFrom fuel { f with blanks := f.blanks ++ [x] } c.next
      else if Cursor.isBreakChar x then
        let (b, c) := c.takeBreak
        fold tabFrom fuel (f.addBreak b) c
      else some (f, c)

def hexChar (width : Nat) (c : Cursor) : Option (Char × Cursor) := do
  let (x, _) ← Text.takeHexChar width c.rest
  return (x, c.skip width)

/-- The character of an escape; the cursor is behind the backslash. -/
def escape (c : Cursor) : Option (Char × Cursor) := do
  let x ← c.peek?
  let c := c.next
  match x with
  | '0' => some ('\x00', c)
  | 'a' => some ('\x07', c)
  | 'b' => some ('\x08', c)
  | 't' => some ('\t', c)
  | '\t' => some ('\t', c)
  | 'n' => some ('\n', c)
  | 'v' => some ('\x0b', c)
  | 'f' => some ('\x0c', c)
  | 'r' => some ('\r', c)
  | 'e' => some ('\x1b', c)
  | ' ' => some (' ', c)
  | '"' => some ('"', c)
  | '/' => some ('/', c)
  | '\\' => some ('\\', c)
  | 'N' => some ('\x85', c)
  | '_' => some ('\xa0', c)
  | 'L' => some ('\u2028', c)
  | 'P' => some ('\u2029', c)
  | 'x' => hexChar 2 c
  | 'u' => hexChar 4 c
  | 'U' => hexChar 8 c
  | _ => none

/-- Where a run of characters without gaps stopped. -/
inductive Stop where | gap | quote | escapedBreak

def quotedRun (single : Bool) : Nat → List Char → Cursor → Option (List Char × Stop × Cursor)
  | 0, _, _ => none
  | fuel + 1, acc, c =>
    if c.atGap then some (acc.reverse, .gap, c) else
    match single, c.rest with
    | true, '\'' :: '\'' :: _ => quotedRun single fuel ('\'' :: acc) (c.skip 2)
    | true, '\'' :: _ => some (acc.reverse, .quote, c)
    | false, '"' :: _ => some (acc.reverse, .quote, c)
    | false, '\\' :: x :: _ =>
      if Cursor.isBreakChar x then some (acc.reverse, .escapedBreak, c.next.takeBreak.2)
      else do
        let (x, c) ← escape c.next
        quotedRun single fuel (x :: acc) c
    | false, ['\\'] => none
    | _, x :: _ => quotedRun single fuel (x :: acc) c.next
    | _, [] => none

def quotedBody (single : Bool) : Nat → List Char → Cursor → Option (List Char × Cursor)
  | 0, _, _ => none
  | fuel + 1, acc, c =>
    if c.atDocumentMarker || c.atEnd then none else do
    let (run, stop, c) ← quotedRun single (c.rest.length + 1) [] c
    let acc := acc ++ run
    match stop with
    | .quote => some (acc, c.next)
    | .gap =>
      let (f, c) ← fold 0 (c.rest.length + 1) .start c
      quotedBody single fuel (acc ++ f.text) c
    | .escapedBreak =>
      if c.atChar '"' then some (acc, c.next) else
      let (f, c) ← fold 0 (c.rest.length + 1) { Fold.start with broken := true } c
      quotedBody single fuel (acc ++ f.text) c

def quoted (single : Bool) (c : Cursor) : Option (Token × Cursor) := do
  let (cs, c) ← quotedBody single (c.rest.length + 1) [] c.next
  some (.scalar .other (.ofList cs), c)

def isFlowIndicator (c : Char) : Bool := ",[]\x7b\x7d".toList.contains c

def plainRun (inFlow : Bool) : Nat → List Char → Cursor → Option (List Char × Cursor)
  | 0, _, _ => none
  | fuel + 1, acc, c => match c.peek? with
    | none => some (acc.reverse, c)
    | some x =>
      if c.atGap then some (acc.reverse, c)
      else if inFlow && x == ':' && (c.peekAt? 1).any (fun y => y == '?' || isFlowIndicator y) then none
      else if (x == ':' && c.gapAt 1) || (inFlow && isFlowIndicator x) then some (acc.reverse, c)
      else plainRun inFlow fuel (x :: acc) c.next

/-- The cursor behind a plain scalar, and whether it is at the start of a line. -/
def plainBody (inFlow : Bool) (indent : Nat) :
    Nat → List Char → Fold → Cursor → Option (List Char × Bool × Cursor)
  | 0, _, _, _ => none
  | fuel + 1, acc, f, c =>
    if c.atDocumentMarker || c.atChar '#' then some (acc, f.broken, c) else do
    let (run, c) ← plainRun inFlow (c.rest.length + 1) [] c
    let acc := if run.isEmpty then acc else acc ++ f.text ++ run
    let f := if run.isEmpty then f else .start
    if !c.atBlank && !c.atBreak then some (acc, f.broken, c) else do
    let (f, c) ← fold indent (c.rest.length + 1) f c
    if !inFlow && c.column < indent then some (acc, f.broken, c)
    else plainBody inFlow indent fuel acc f c

def plain (inFlow : Bool) (indent : Nat) (c : Cursor) : Option (Token × Bool × Cursor) := do
  let (cs, newLine, c) ← plainBody inFlow indent (c.rest.length + 1) [] .start c
  some (.scalar .plain (.ofList cs), newLine, c)

/-- What becomes of the line breaks at the end of a block scalar. -/
inductive Chomping where | strip | clip | keep
  deriving DecidableEq

def chomping? : Option Char → Option Chomping
  | some '+' => some .keep
  | some '-' => some .strip
  | _ => none

def increment? (x : Option Char) : Option Nat :=
  x.bind fun d => if isDigit d then some (d.toNat - '0'.toNat) else none

/-- The two indicators behind `|` or `>`, in either order; a given indentation is not zero. -/
def blockHeader (c : Cursor) : Option (Chomping × Nat × Cursor) :=
  match chomping? c.peek?, increment? c.peek? with
  | some ch, _ => match increment? (c.peekAt? 1) with
    | some n => if n = 0 then none else some (ch, n, c.skip 2)
    | none => some (ch, 0, c.next)
  | none, some n =>
    if n = 0 then none else match chomping? (c.peekAt? 1) with
    | some ch => some (ch, n, c.skip 2)
    | none => some (.clip, n, c.next)
  | none, none => some (.clip, 0, c)

/-- Empty lines; `indent` is zero as long as the indentation is not known, and `deepest` is the
largest one met. -/
def emptyLines (indent : Nat) :
    Nat → Nat → List Char → Cursor → Option (List Char × Nat × Cursor)
  | 0, _, _, _ => none
  | fuel + 1, deepest, acc, c =>
    let pad := c.rest.takeWhile (· == ' ')
    let c := c.skip (if indent = 0 then pad.length else min pad.length (indent - c.column))
    let deepest := max deepest c.column
    if (indent = 0 || c.column < indent) && c.atChar '\t' then none
    else if c.atBreak then
      let (b, c) := c.takeBreak
      emptyLines indent fuel deepest (acc ++ b) c
    else some (acc, deepest, c)

structure BlockState where
  text : List Char
  lastBreak : List Char
  breaks : List Char
  /-- Whether the line before starts with a blank, and so is not folded. -/
  indented : Bool

def blockLines (literal : Bool) (indent : Nat) : Nat → BlockState → Cursor → Option (BlockState × Cursor)
  | 0, _, _ => none
  | fuel + 1, s, c =>
    if c.column != indent || c.atEnd then some (s, c) else do
    let folds := !literal && s.lastBreak == ['\n'] && !s.indented && !c.atBlank
    let joint := if folds then (if s.breaks.isEmpty then [' '] else []) else s.lastBreak
    let (line, d) := c.takeWhile fun x => !Cursor.isBreakChar x
    let (b, d) := d.takeBreak
    let (bs, _, d) ← emptyLines indent (d.rest.length + 1) 0 [] d
    blockLines literal indent fuel ⟨s.text ++ joint ++ s.breaks ++ line, b, bs, c.atBlank⟩ d

/-- `parent` is the indentation around the scalar, if there is any. -/
def block (literal : Bool) (parent : Option Nat) (c : Cursor) : Option (Token × Cursor) := do
  let (chomping, increment, c) ← blockHeader c.next
  let c ← lineEnd c
  let given := if increment = 0 then 0 else parent.getD 0 + increment
  let (bs, deepest, c) ← emptyLines given (c.rest.length + 1) 0 [] c
  let least := (parent.map (· + 1)).getD 0
  let indent := if given = 0 then max (max deepest least) 1 else given
  let (s, c) ← blockLines literal indent (c.rest.length + 1) ⟨[], [], bs, false⟩ c
  let cs := s.text ++ (if chomping = .strip then [] else s.lastBreak) ++
    (if chomping = .keep then s.breaks else [])
  some (.scalar (if literal then .literal else .other) (.ofList cs), c)

end Lexeme

end OperatorScaffold.Yaml

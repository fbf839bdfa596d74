/-!
The tokens of a YAML stream, and a place in its text.
-/

namespace OperatorScaffold.Yaml

/-- How a scalar was written, as far as its reading depends on it. -/
inductive ScalarStyle where | plain | literal | other
  deriving DecidableEq

inductive Token where
  | version (major minor : Nat)
  | tagHandle (handle uri : String)
  | documentStart
  | documentEnd
  | blockSequence
  | blockMapping
  | blockEnd
  | openSequence
  | closeSequence
  | openMapping
  | closeMapping
  | blockEntry
  | flowEntry
  | key
  | value
  | alias (name : String)
  | anchor (name : String)
  | tag (handle suffix : String)
  | scalar (style : ScalarStyle) (text : String)
  deriving DecidableEq

/-- What is left of the text, and where it starts; `offset` counts bytes. -/
structure Cursor where
  rest : List Char
  line : Nat
  column : Nat
  offset : Nat

namespace Cursor

def isBreakChar (c : Char) : Bool :=
  c == '\r' || c == '\n' || c == '\x85' || c == '\u2028' || c == '\u2029'

def isBlankChar (c : Char) : Bool := c == ' ' || c == '\t'

def ofText (cs : List Char) : Cursor := ⟨cs, 0, 0, 0⟩

def peek? (c : Cursor) : Option Char := c.rest.head?

def peekAt? (c : Cursor) (n : Nat) : Option Char := (c.rest.drop n).head?

def atEnd (c : Cursor) : Bool := c.rest.isEmpty

def atChar (c : Cursor) (x : Char) : Bool := c.peek? == some x

def atBlank (c : Cursor) : Bool := c.peek?.any isBlankChar

def atBreak (c : Cursor) : Bool := c.peek?.any isBreakChar

/-- A line break or the end. -/
def atLineEnd (c : Cursor) : Bool := c.peek?.all isBreakChar

/-- A blank, a line break or the end, `n` characters on. -/
def gapAt (c : Cursor) (n : Nat) : Bool := (c.peekAt? n).all fun x => isBlankChar x || isBreakChar x

def atGap (c : Cursor) : Bool := c.gapAt 0

/-- Past one character that is no line break. -/
def next (c : Cursor) : Cursor :=
  match c.rest with
  | [] => c
  | x :: xs => { c with rest := xs, column := c.column + 1, offset := c.offset + x.utf8Size }

def skip (c : Cursor) : Nat → Cursor
  | 0 => c
  | n + 1 => c.next.skip n

/-- Past a line break, and the break as a scalar keeps it. -/
def takeBreak (c : Cursor) : List Char × Cursor :=
  match c.rest with
  | '\r' :: '\n' :: xs => (['\n'], ⟨xs, c.line + 1, 0, c.offset + 2⟩)
  | x :: xs =>
    if isBreakChar x then
      (if x == '\u2028' || x == '\u2029' then [x] else ['\n'], ⟨xs, c.line + 1, 0, c.offset + x.utf8Size⟩)
    else ([], c)
  | [] => ([], c)

/-- Past the characters that `p` holds of, none of them a line break. -/
def takeWhile (c : Cursor) (p : Char → Bool) : List Char × Cursor :=
  let cs := c.rest.takeWhile p
  (cs, c.skip cs.length)

def skipWhile (c : Cursor) (p : Char → Bool) : Cursor := (c.takeWhile p).2

def skipBlanks (c : Cursor) : Cursor := c.skipWhile isBlankChar

def skipComment (c : Cursor) : Cursor :=
  if c.atChar '#' then c.skipWhile fun x => !isBreakChar x else c

/-- Three of one character at the start of a line, with a gap behind. -/
def atMarker (c : Cursor) (x : Char) : Bool :=
  c.column == 0 && [x, x, x].isPrefixOf c.rest && c.gapAt 3

def atDocumentMarker (c : Cursor) : Bool := c.atMarker '-' || c.atMarker '.'

end Cursor

end OperatorScaffold.Yaml

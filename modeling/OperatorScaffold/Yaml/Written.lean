import OperatorScaffold.Yaml.Token
import OperatorScaffold.Yaml.Plain
/-!
How a text is written as a YAML scalar: which styles its characters allow, and which one is taken.
-/

namespace OperatorScaffold.Yaml

open Cursor (isBreakChar isBlankChar)

/-- Styles of written scalars. -/
inductive WriteStyle where | plain | single | double | literal
  deriving DecidableEq

def isShown (c : Char) : Bool :=
  let n := c.toNat
  n == 0x0A || (0x20 ≤ n && n ≤ 0x7E) || (0xA0 ≤ n && n != 0xFEFF && n != 0xFFFE && n != 0xFFFF)

def isGapChar (c : Char) : Bool := isBlankChar c || isBreakChar c || c == '\x00'

/-- What the characters of a text ask of the style it is written in. -/
structure Demands where
  /-- A plain scalar would be read as something else. -/
  indicator : Bool
  broken : Bool
  special : Bool
  /-- A space or a line break at an end. -/
  looseEnd : Bool
  endsWithSpace : Bool
  breakSpace : Bool
  spaceBreak : Bool

def isLeadIndicator (c : Char) (beforeGap : Bool) : Bool :=
  "#,[]\x7b\x7d&*!|>'\"%@\x60".toList.contains c || ((c == '?' || c == ':' || c == '-') && beforeGap)

def followsGap : List Char → Bool
  | [] => true
  | c :: _ => isGapChar c

/-- A colon in front of a gap or a number sign behind one, after the first character. -/
def hasInnerIndicator : List Char → Bool
  | [] => false
  | c :: cs => match cs with
    | [] => false
    | d :: ds => (d == ':' && followsGap ds) || (d == '#' && isGapChar c) || hasInnerIndicator cs

def hasPair (p q : Char → Bool) : List Char → Bool
  | [] => false
  | c :: cs => (p c && cs.head?.any q) || hasPair p q cs

def isSpaceChar (c : Char) : Bool := c == ' '

def looksLikeMarker (cs : List Char) : Bool :=
  ['-', '-', '-'].isPrefixOf cs || ['.', '.', '.'].isPrefixOf cs

def Demands.ofChars (cs : List Char) : Demands where
  indicator := looksLikeMarker cs || hasInnerIndicator cs ||
    (match cs with
    | [] => false
    | c :: r => isLeadIndicator c (followsGap r))
  broken := cs.any isBreakChar
  special := cs.any fun c => !isShown c
  looseEnd := cs.head?.any (fun c => isSpaceChar c || isBreakChar c) ||
    cs.getLast?.any (fun c => isSpaceChar c || isBreakChar c)
  endsWithSpace := cs.getLast?.any isSpaceChar
  breakSpace := hasPair isBreakChar isSpaceChar cs
  spaceBreak := hasPair isSpaceChar isBreakChar cs

def Demands.plain (d : Demands) : Bool :=
  !(d.indicator || d.broken || d.special || d.looseEnd || d.breakSpace || d.spaceBreak)

def Demands.single (d : Demands) : Bool := !(d.special || d.breakSpace || d.spaceBreak)

def Demands.literal (d : Demands) : Bool := !(d.special || d.endsWithSpace || d.spaceBreak)

/-- A text of several lines is a literal block, and one that would not be read as a text is quoted. -/
def preferredStyle (s : String) : WriteStyle :=
  if s.toList.contains '\n' then .literal
  else match Plain.resolve s with
    | .text => if Plain.isPaddedDigits s then .single else .plain
    | _ => .single

/-- `simpleKey` says that the text is a key in front of its colon. -/
def chooseStyle (simpleKey : Bool) (s : String) : WriteStyle :=
  let d := Demands.ofChars s.toList
  let style := if simpleKey && d.broken then .double else preferredStyle s
  let style := if style = .plain && (!d.plain || (s.isEmpty && simpleKey)) then .single else style
  let style := if style = .single && !d.single then .double else style
  if style = .literal && (!d.literal || simpleKey) then .double else style

end OperatorScaffold.Yaml

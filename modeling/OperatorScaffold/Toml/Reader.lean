import OperatorScaffold.Naming
import OperatorScaffold.Text.Hex
/-!
Reading the entries of a TOML text that are texts or truth values under plain keys. Tables, numbers
and other kinds of value are refused like malformed text.
-/

namespace OperatorScaffold.Toml

open Text

inductive Value where
  | text (s : String)
  | bool (b : Bool)
  deriving DecidableEq

abbrev Entries := List (String × Value)

private def isSpace (c : Char) : Bool := c == ' ' || c == '\t'

private def skipSpace (cs : List Char) : List Char := cs.dropWhile isSpace

/-- Whether a character may stand for itself in a comment or between quotes. -/
private def isPlain (c : Char) : Bool := c == '\t' || (0x20 ≤ c.toNat && c.toNat != 0x7F)

private def isBareChar (c : Char) : Bool := Naming.isAlphanumeric c || c == '-' || c == '_'

/-- What follows a line end, if one comes first. -/
private def newline? : List Char → Option (List Char)
  | '\n' :: cs => some cs
  | '\r' :: '\n' :: cs => some cs
  | _ => none

private def escape : List Char → Option (Char × List Char)
  | 'b' :: cs => some ('\x08', cs)
  | 't' :: cs => some ('\t', cs)
  | 'n' :: cs => some ('\n', cs)
  | 'f' :: cs => some ('\x0c', cs)
  | 'r' :: cs => some ('\r', cs)
  | 'e' :: cs => some ('\x1b', cs)
  | '"' :: cs => some ('"', cs)
  | '\\' :: cs => some ('\\', cs)
  | 'x' :: cs => takeHexChar 2 cs
  | 'u' :: cs => takeHexChar 4 cs
  | 'U' :: cs => takeHexChar 8 cs
  | _ => none

/-- How texts are quoted: between which quotes, and whether a backslash escapes. -/
private structure Quoting where
  quote : Char
  escapes : Bool

private def Quoting.basic : Quoting := ⟨'"', true⟩
private def Quoting.literal : Quoting := ⟨'\'', false⟩

/-- The rest of a text on one line, behind its opening quote; `fuel` bounds the characters. -/
private def lineBody (q : Quoting) : Nat → List Char → List Char → Option (String × List Char)
  | 0, _, _ => none
  | _ + 1, _, [] => none
  | fuel + 1, acc, c :: cs =>
    if c = q.quote then some (.ofList acc.reverse, cs)
    else if c = '\\' && q.escapes then do
      let (x, cs) ← escape cs
      lineBody q fuel (x :: acc) cs
    else if isPlain c then lineBody q fuel (c :: acc) cs
    else none

/-- Without blanks and line ends in front. -/
private def skipGap : List Char → List Char
  | ' ' :: cs => skipGap cs
  | '\t' :: cs => skipGap cs
  | '\n' :: cs => skipGap cs
  | '\r' :: '\n' :: cs => skipGap cs
  | cs => cs

/-- The rest of a text on many lines, behind its three opening quotes. Up to two quotes may stand in
front of the three that end it, and an escaped line end vanishes with the blanks behind it. -/
private def blockBody (q : Quoting) : Nat → List Char → List Char → Option (String × List Char)
  | 0, _, _ => none
  | _ + 1, _, [] => none
  | fuel + 1, acc, c :: cs =>
    if c = q.quote then
      let run := c :: cs.takeWhile (· == q.quote)
      let rest := cs.dropWhile (· == q.quote)
      if run.length < 3 then blockBody q fuel (run ++ acc) rest
      else if run.length ≤ 5 then some (.ofList (run.drop 3 ++ acc).reverse, rest)
      else none
    else if c = '\\' && q.escapes then
      match newline? (skipSpace cs) with
      | some rest => blockBody q fuel acc (skipGap rest)
      | none => do
        let (x, cs) ← escape cs
        blockBody q fuel (x :: acc) cs
    else match newline? (c :: cs) with
      | some rest => blockBody q fuel ('\n' :: acc) rest
      | none => if isPlain c then blockBody q fuel (c :: acc) cs else none

private def line (q : Quoting) (cs : List Char) : Option (String × List Char) :=
  lineBody q (cs.length + 1) [] cs

private def block (q : Quoting) (cs : List Char) : Option (String × List Char) :=
  blockBody q (cs.length + 1) [] ((newline? cs).getD cs)

private def value : List Char → Option (Value × List Char)
  | 't' :: 'r' :: 'u' :: 'e' :: cs => some (.bool true, cs)
  | 'f' :: 'a' :: 'l' :: 's' :: 'e' :: cs => some (.bool false, cs)
  | '"' :: '"' :: '"' :: cs => (block .basic cs).map fun (s, cs) => (.text s, cs)
  | '"' :: cs => (line .basic cs).map fun (s, cs) => (.text s, cs)
  | '\'' :: '\'' :: '\'' :: cs => (block .literal cs).map fun (s, cs) => (.text s, cs)
  | '\'' :: cs => (line .literal cs).map fun (s, cs) => (.text s, cs)
  | _ => none

private def key : List Char → Option (String × List Char)
  | '"' :: cs => line .basic cs
  | '\'' :: cs => line .literal cs
  | cs => match cs.takeWhile isBareChar with
    | [] => none
    | name => some (.ofList name, cs.dropWhile isBareChar)

private def entry (cs : List Char) : Option ((String × Value) × List Char) := do
  let (k, cs) ← key cs
  match skipSpace cs with
  | '=' :: cs => do
    let (v, cs) ← value (skipSpace cs)
    return ((k, v), cs)
  | _ => none

/-- Goes to the next line, over blanks and a comment. -/
private def endLine (cs : List Char) : Option (List Char) :=
  let cs := match skipSpace cs with
    | '#' :: cs => cs.dropWhile isPlain
    | cs => cs
  if cs.isEmpty then some [] else newline? cs

/-- The entries of the lines, in their order; `fuel` bounds the lines. -/
private def lines : Nat → List Char → Option Entries
  | 0, _ => none
  | fuel + 1, cs =>
    if cs.isEmpty then some []
    else match endLine cs with
      | some cs => lines fuel cs
      | none => do
        let (e, cs) ← entry (skipSpace cs)
        return e :: (← lines fuel (← endLine cs))

private def noneTwice (es : Entries) : Bool :=
  es.all fun e => (es.filter (·.1 = e.1)).length = 1

def read (text : String) : Option Entries := do
  let cs := match text.toList with
    | '\uFEFF' :: cs => cs
    | cs => cs
  let es ← lines (cs.length + 1) cs
  if noneTwice es then some es else none

end OperatorScaffold.Toml

import OperatorScaffold.Document.Node
import OperatorScaffold.Json.Number
import OperatorScaffold.Text.Hex
/-!
Reading JSON text. Nesting is limited to 127 containers, and nothing but blanks may follow the value.
-/

namespace OperatorScaffold.Json

open Document Text

private def isSpace (c : Char) : Bool := c == ' ' || c == '\n' || c == '\t' || c == '\r'

private def skipSpace (cs : List Char) : List Char := cs.dropWhile isSpace

/-- The character of a `\u` escape, whose second half may follow in an escape of its own. -/
private def unicodeEscape (cs : List Char) : Option (Char × List Char) := do
  let (n, cs) ← takeHex 4 cs
  if 0xDC00 ≤ n && n ≤ 0xDFFF then none
  else if 0xD800 ≤ n && n ≤ 0xDBFF then
    match cs with
    | '\\' :: 'u' :: cs =>
      let (m, cs) ← takeHex 4 cs
      if 0xDC00 ≤ m && m ≤ 0xDFFF then
        some (Char.ofNat (0x10000 + (n - 0xD800) * 0x400 + (m - 0xDC00)), cs)
      else none
    | _ => none
  else some (Char.ofNat n, cs)

private def escape : List Char → Option (Char × List Char)
  | '"' :: cs => some ('"', cs)
  | '\\' :: cs => some ('\\', cs)
  | '/' :: cs => some ('/', cs)
  | 'b' :: cs => some ('\x08', cs)
  | 'f' :: cs => some ('\x0c', cs)
  | 'n' :: cs => some ('\n', cs)
  | 'r' :: cs => some ('\r', cs)
  | 't' :: cs => some ('\t', cs)
  | 'u' :: cs => unicodeEscape cs
  | _ => none

/-- The rest of a string after its opening quote; `fuel` bounds the characters. -/
private def stringBody : Nat → List Char → List Char → Option (String × List Char)
  | 0, _, _ => none
  | _ + 1, _, [] => none
  | _ + 1, acc, '"' :: cs => some (.ofList acc.reverse, cs)
  | fuel + 1, acc, '\\' :: cs => do
    let (c, cs) ← escape cs
    stringBody fuel (c :: acc) cs
  | fuel + 1, acc, c :: cs => if c.toNat < 0x20 then none else stringBody fuel (c :: acc) cs

private def readString (cs : List Char) : Option (String × List Char) := stringBody (cs.length + 1) [] cs

private def nullScalar : Scalar := ⟨none, none, true, false, some .null⟩
private def boolScalar (b : Bool) : Scalar := ⟨none, some b, false, false, some (.bool b)⟩
private def stringScalar (s : String) : Scalar := ⟨some s, none, false, false, some (.str s)⟩
private def numberScalar (v : Json) : Scalar := ⟨none, none, false, false, some v⟩

mutual

/-- `depth` is how many containers may still be opened. -/
private def value (fuel depth : Nat) (cs : List Char) : Option (Node × List Char) :=
  match fuel with
  | 0 => none
  | fuel + 1 => match skipSpace cs with
    | 'n' :: 'u' :: 'l' :: 'l' :: cs => some (.scalar nullScalar, cs)
    | 't' :: 'r' :: 'u' :: 'e' :: cs => some (.scalar (boolScalar true), cs)
    | 'f' :: 'a' :: 'l' :: 's' :: 'e' :: cs => some (.scalar (boolScalar false), cs)
    | '"' :: cs => do
      let (s, cs) ← readString cs
      some (.scalar (stringScalar s), cs)
    | '[' :: cs => match depth with
      | 0 => none
      | depth + 1 => match skipSpace cs with
        | ']' :: cs => some (.list true false [], cs)
        | cs => do
          let (items, cs) ← elements fuel depth cs
          some (.list true false items, cs)
    | '\x7b' :: cs => match depth with
      | 0 => none
      | depth + 1 => match skipSpace cs with
        | '\x7d' :: cs => some (.record false [], cs)
        | cs => do
          let (entries, cs) ← entries fuel depth cs
          some (.record false entries, cs)
    | cs => do
      let (v, cs) ← readNumber cs
      some (.scalar (numberScalar v), cs)

private def elements (fuel depth : Nat) (cs : List Char) : Option (List Node × List Char) :=
  match fuel with
  | 0 => none
  | fuel + 1 => do
    let (n, cs) ← value fuel depth cs
    match skipSpace cs with
    | ',' :: cs => do
      let (ns, cs) ← elements fuel depth cs
      some (n :: ns, cs)
    | ']' :: cs => some ([n], cs)
    | _ => none

private def entries (fuel depth : Nat) (cs : List Char) : Option (List (Node × Node) × List Char) :=
  match fuel with
  | 0 => none
  | fuel + 1 => match skipSpace cs with
    | '"' :: cs => do
      let (k, cs) ← readString cs
      match skipSpace cs with
      | ':' :: cs => do
        let (v, cs) ← value fuel depth cs
        match skipSpace cs with
        | ',' :: cs => do
          let (es, cs) ← entries fuel depth cs
          some ((.scalar (stringScalar k), v) :: es, cs)
        | '\x7d' :: cs => some ([(.scalar (stringScalar k), v)], cs)
        | _ => none
      | _ => none
    | _ => none

end

def read (text : String) : Option Node := do
  let cs := text.toList
  let (n, rest) ← value (2 * cs.length + 2) 127 cs
  if (skipSpace rest).isEmpty then some n else none

end OperatorScaffold.Json

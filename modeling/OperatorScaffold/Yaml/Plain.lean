import OperatorScaffold.Decimal.Numeral
import OperatorScaffold.Text.Lines
/-!
What a plain scalar stands for: the core schema of YAML, with integers of up to 128 bits told from
larger ones.
-/

namespace OperatorScaffold.Yaml

open Decimal

/-- `word` is an integer of 64 bits, signed if negative; `wide` is one of 128 bits. -/
inductive Plain where
  | null
  | bool (b : Bool)
  | word (n : Int)
  | wide (n : Int)
  | float (x : Binary64)
  | infinite (negative : Bool)
  | notANumber
  | text
  deriving DecidableEq

namespace Plain

def isNullWord (s : String) : Bool := ["null", "Null", "NULL", "~"].contains s

def bool? (s : String) : Option Bool :=
  if ["true", "True", "TRUE"].contains s then some true
  else if ["false", "False", "FALSE"].contains s then some false
  else none

def unsign : List Char → List Char
  | '-' :: cs => cs
  | '+' :: cs => cs
  | cs => cs

/-- Digits behind a leading zero are no number. -/
def isPaddedDigits (s : String) : Bool :=
  match unsign s.toList with
  | '0' :: c :: cs => (c :: cs).all Naming.isDigit
  | _ => false

def based? : List Char → Option Nat
  | '0' :: 'x' :: cs => natural? 16 cs
  | '0' :: 'o' :: cs => natural? 8 cs
  | '0' :: 'b' :: cs => natural? 2 cs
  | _ => none

def magnitude? (padded : Bool) (cs : List Char) : Option Nat :=
  match based? cs with
  | some n => some n
  | none => if padded then none else natural? 10 cs

def int? (s : String) : Option Int :=
  let padded := isPaddedDigits s
  match s.toList with
  | '-' :: cs => (magnitude? padded cs).map fun n => -(n : Int)
  | '+' :: cs => (magnitude? padded cs).map Int.ofNat
  | cs => (magnitude? padded cs).map Int.ofNat

/-- Words hold numbers of 64 bits, with a sign or without. -/
def ofInt? (n : Int) : Option Plain :=
  let (half, full) : Int × Int := (0x8000000000000000, 0x10000000000000000)
  if -half ≤ n && n < full then some (.word n)
  else if -(half * full) ≤ n && n < full * full then some (.wide n)
  else none

def integer? (s : String) : Option Plain := int? s >>= ofInt?

def isInfinity (s : List Char) : Bool :=
  s == ".inf".toList || s == ".Inf".toList || s == ".INF".toList

def float? (s : String) : Option Plain :=
  let cs := s.toList
  match cs with
  | '+' :: '+' :: _ => none
  | '+' :: '-' :: _ => none
  | '+' :: r => if isInfinity r then some (.infinite false) else (fraction? r).map .float
  | '-' :: r => if isInfinity r then some (.infinite true) else (fraction? cs).map .float
  | r =>
    if isInfinity r then some (.infinite false)
    else if [".nan", ".NaN", ".NAN"].contains s then some .notANumber
    else (fraction? r).map .float

def resolve (s : String) : Plain :=
  if s.isEmpty || isNullWord s then .null
  else match bool? s with
    | some b => .bool b
    | none => match integer? s with
      | some p => p
      | none => if isPaddedDigits s then .text else (float? s).getD .text

end Plain

end OperatorScaffold.Yaml

import OperatorScaffold.Decimal.Binary64
import OperatorScaffold.Naming
/-!
Numerals in texts: integers in a base, and decimal fractions with an exponent.
-/

namespace OperatorScaffold.Decimal

open Naming

def digitValue? (base : Nat) (c : Char) : Option Nat :=
  let v :=
    if isDigit c then some (c.toNat - '0'.toNat)
    else if isLower c then some (c.toNat - 'a'.toNat + 10)
    else if isUpper c then some (c.toNat - 'A'.toNat + 10)
    else none
  v.bind fun n => if n < base then some n else none

def naturalFrom (base : Nat) (acc : Nat) : List Char → Option Nat
  | [] => some acc
  | c :: cs => do naturalFrom base (acc * base + (← digitValue? base c)) cs

/-- One digit or more. -/
def natural? (base : Nat) : List Char → Option Nat
  | [] => none
  | cs => naturalFrom base 0 cs

/-- A sign, digits with at most one point among them and at least one of them, and an exponent.
Numbers too large for the format are refused. -/
def fraction? (cs : List Char) : Option Binary64 := do
  let (negative, cs) := match cs with
    | '-' :: r => (true, r)
    | '+' :: r => (false, r)
    | r => (false, r)
  let whole := cs.takeWhile isDigit
  let cs := cs.dropWhile isDigit
  let (part, cs) := match cs with
    | '.' :: r => (r.takeWhile isDigit, r.dropWhile isDigit)
    | r => ([], r)
  let digits ← natural? 10 (whole ++ part)
  let e : Int ← match cs with
    | [] => some 0
    | c :: r =>
      if c != 'e' && c != 'E' then none else match r with
      | '-' :: r => do some (-((← natural? 10 r : Nat) : Int))
      | '+' :: r => do some ((← natural? 10 r : Nat) : Int)
      | r => do some ((← natural? 10 r : Nat) : Int)
  Binary64.ofDecimal negative digits (e - part.length)

end OperatorScaffold.Decimal

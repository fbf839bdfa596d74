import OperatorScaffold.Json.Value
import OperatorScaffold.Naming
/-!
Numbers of JSON text. An integer of 64 bits is kept as it is; any other number becomes a binary64
number by one multiplication with, or division by, a power of ten, after its significant digits
have been cut to those that fit into 64 bits.
-/

namespace OperatorScaffold.Json

open Decimal Naming

private def maxWord : Nat := 0xFFFFFFFFFFFFFFFF

private def digit (c : Char) : Nat := c.toNat - '0'.toNat

private def power (e : Nat) : Option Binary64 := Binary64.ofDecimal false 1 e

/-- One scaling step; exponents below -308 take several divisions, each of which rounds. -/
private def scaleDown (x : Binary64) (e : Nat) : Nat → Option Binary64
  | 0 => none
  | fuel + 1 =>
    if e ≤ 308 then do x.div (← power e)
    else if x.isZero then some x
    else do scaleDown (← x.div (← power 308)) (e - 308) fuel

private def scale (negative : Bool) (significand : Nat) (e : Int) : Option Json := do
  let x ← Binary64.ofNat false significand
  let y ←
    if e < 0 then scaleDown x e.natAbs (e.natAbs / 308 + 2)
    else if e ≤ 308 then x.mul (← power e.toNat)
    else if x.isZero then some x else none
  some (.float { y with negative })

/-- The digits of an exponent; those that do not fit into 32 bits decide by the sign alone. -/
private def exponent (negative : Bool) (significand : Nat) (start : Int) (cs : List Char) :
    Option (Json × List Char) := do
  let (down, cs) := match cs with
    | '+' :: r => (false, r)
    | '-' :: r => (true, r)
    | r => (false, r)
  let ds := cs.takeWhile isDigit
  let rest := cs.dropWhile isDigit
  if ds.isEmpty then none
  let e := ds.foldl (fun n c => 10 * n + digit c) 0
  if 0x7FFFFFFF < e then
    if significand ≠ 0 && !down then none else some (.float (Binary64.zero negative), rest)
  else return (← scale negative significand (if down then start - e else start + e), rest)

private def suffix (negative : Bool) (significand : Nat) (e : Int) : List Char → Option (Json × List Char)
  | 'e' :: cs => exponent negative significand e cs
  | 'E' :: cs => exponent negative significand e cs
  | cs => return (← scale negative significand e, cs)

/-- Takes digits as long as the significand fits; the count of those taken comes with it. -/
private def takeDigits (significand taken : Nat) : List Char → Nat × Nat × List Char
  | [] => (significand, taken, [])
  | c :: cs =>
    if isDigit c && 10 * significand + digit c ≤ maxWord then
      takeDigits (10 * significand + digit c) (taken + 1) cs
    else (significand, taken, c :: cs)

private def fraction (negative : Bool) (significand : Nat) (e : Int) (cs : List Char) :
    Option (Json × List Char) :=
  if !cs.head?.any isDigit then none else
  let (significand, taken, rest) := takeDigits significand 0 cs
  suffix negative significand (e - taken) (rest.dropWhile isDigit)

/-- What follows the integer part, when the number is no integer of 64 bits. -/
private def tail (negative : Bool) (significand : Nat) (e : Int) : List Char → Option (Json × List Char)
  | '.' :: cs => fraction negative significand e cs
  | cs => suffix negative significand e cs

private def startsTail (cs : List Char) : Bool :=
  cs.head?.any fun c => c == '.' || c == 'e' || c == 'E'

private def unsigned (negative : Bool) (cs : List Char) : Option (Json × List Char) := do
  let c ← cs.head?
  if !isDigit c then none
  if c == '0' && (cs.drop 1).head?.any isDigit then none
  let (n, _, rest) := takeDigits 0 0 cs
  let skipped := rest.takeWhile isDigit
  let rest := rest.dropWhile isDigit
  if !skipped.isEmpty then tail negative n skipped.length rest
  else if startsTail rest then tail negative n 0 rest
  else if !negative then some (.int n, rest)
  else if n = 0 || 0x8000000000000000 < n then return (.float (← Binary64.ofNat true n), rest)
  else some (.int (-n), rest)

def readNumber : List Char → Option (Json × List Char)
  | '-' :: cs => unsigned true cs
  | cs => unsigned false cs

end OperatorScaffold.Json

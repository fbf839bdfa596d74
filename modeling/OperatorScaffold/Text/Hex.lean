/-!
Numbers written with hexadecimal digits, and the characters that such numbers stand for.
-/

namespace OperatorScaffold.Text

def hexValue? (c : Char) : Option Nat :=
  if '0' ≤ c && c ≤ '9' then some (c.toNat - '0'.toNat)
  else if 'a' ≤ c && c ≤ 'f' then some (c.toNat - 'a'.toNat + 10)
  else if 'A' ≤ c && c ≤ 'F' then some (c.toNat - 'A'.toNat + 10)
  else none

/-- The number that so many digits at the start of a text make, and what follows them. -/
def takeHex (width : Nat) (cs : List Char) : Option (Nat × List Char) := do
  let ds ← (cs.take width).mapM hexValue?
  if ds.length < width then none
  else some (ds.foldl (fun n d => 16 * n + d) 0, cs.drop width)

/-- Surrogates and what lies beyond the last plane are no characters. -/
def charOfNumber? (n : Nat) : Option Char :=
  if (0xD800 ≤ n && n ≤ 0xDFFF) || 0x10FFFF < n then none else some (.ofNat n)

/-- The character whose number is written with so many digits, and what follows them. -/
def takeHexChar (width : Nat) (cs : List Char) : Option (Char × List Char) := do
  let (n, cs) ← takeHex width cs
  return (← charOfNumber? n, cs)

end OperatorScaffold.Text

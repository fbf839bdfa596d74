/-!
Finite numbers of the binary64 format, exactly: a mantissa below `2 ^ 53` and a power of two no
lower than `2 ^ (-1074)`, with the largest mantissa that fits. Rounding goes to the nearest
number, and from the middle to the even mantissa.
-/

namespace OperatorScaffold.Decimal

/-- The power of two for an exponent that is not negative, and one for any other. -/
def pow2 (e : Int) : Nat := Nat.pow 2 e.toNat

/-- The power of ten for an exponent that is not negative, and one for any other. -/
def pow10 (e : Int) : Nat := Nat.pow 10 e.toNat

structure Binary64 where
  negative : Bool
  mantissa : Nat
  exponent : Int
  deriving DecidableEq

namespace Binary64

def zero (negative : Bool) : Binary64 := ⟨negative, 0, -1074⟩

def isZero (x : Binary64) : Bool := x.mantissa == 0

/-- `n * 2 ^ e` as a quotient of natural numbers. -/
def ratio (n : Nat) (e : Int) : Nat × Nat := (n * pow2 e, pow2 (-e))

def divHalfEven (n d : Nat) : Nat :=
  let q := n / d
  let r := n % d
  if 2 * r < d then q else if d < 2 * r then q + 1 else if q % 2 = 0 then q else q + 1

/-- The quotient `n / (d * 2 ^ e)`, rounded. -/
def scaled (n d : Nat) (e : Int) : Nat := divHalfEven (n * pow2 (-e)) (d * pow2 e)

/-- The nearest number to `n / d`; `none` when it is too large for the format. -/
def ofRatio (negative : Bool) (n d : Nat) : Option Binary64 :=
  if n = 0 then some (zero negative) else
  let guess : Int := (Nat.log2 n : Int) - Nat.log2 d - 53
  let e := if (n * pow2 (-guess)) / (d * pow2 guess) < pow2 53 then guess else guess + 1
  let e := max e (-1074)
  let m := scaled n d e
  let (m, e) := if m = pow2 53 then (pow2 52, e + 1) else (m, e)
  if 971 < e then none else some ⟨negative, m, e⟩

def ofNat (negative : Bool) (n : Nat) : Option Binary64 := ofRatio negative n 1

/-- The nearest number to `digits * 10 ^ e`; far exponents are settled without computing powers. -/
def ofDecimal (negative : Bool) (digits : Nat) (e : Int) : Option Binary64 :=
  let width : Int := Nat.log2 digits / 3 + 1
  if digits = 0 then some (zero negative)
  else if 400 < e then none
  else if e + width < -400 then some (zero negative)
  else ofRatio negative (digits * pow10 e) (pow10 (-e))

private def fraction (x : Binary64) : Nat × Nat := ratio x.mantissa x.exponent

def mul (x y : Binary64) : Option Binary64 :=
  let (a, b) := x.fraction
  let (c, d) := y.fraction
  ofRatio (x.negative != y.negative) (a * c) (b * d)

/-- The quotient by a number other than zero. -/
def div (x y : Binary64) : Option Binary64 :=
  let (a, b) := x.fraction
  let (c, d) := y.fraction
  ofRatio (x.negative != y.negative) (a * d) (b * c)

end Binary64

end OperatorScaffold.Decimal

import OperatorScaffold.Decimal.Binary64
/-!
The shortest decimal that reads back as a given number, and of those the nearest; and how it is
written: positionally near one, else with an exponent.
-/

namespace OperatorScaffold.Decimal

/-- `digits * 10 ^ exponent`. -/
structure Shortest where
  digits : Nat
  exponent : Int
  deriving DecidableEq

namespace Shortest

/-- Whether `a * 10 ^ k ≤ b * 2 ^ e`. -/
private def decimalLe (a : Nat) (k : Int) (b : Nat) (e : Int) : Bool :=
  a * pow10 k * pow2 (-e) ≤ b * pow2 e * pow10 (-k)

private def decimalLt (a : Nat) (k : Int) (b : Nat) (e : Int) : Bool :=
  a * pow10 k * pow2 (-e) < b * pow2 e * pow10 (-k)

/-- The reals that round to a number, in quarters of its last place. -/
private structure Interval where
  low : Nat
  centre : Nat
  high : Nat
  exponent : Int
  closed : Bool

private def interval (x : Binary64) : Interval :=
  let narrow := x.mantissa = pow2 52 && -1074 < x.exponent
  ⟨4 * x.mantissa - (if narrow then 1 else 2), 4 * x.mantissa, 4 * x.mantissa + 2, x.exponent - 2,
    x.mantissa % 2 == 0⟩

private def Interval.contains (i : Interval) (a : Nat) (k : Int) : Bool :=
  if i.closed then !decimalLt a k i.low i.exponent && decimalLe a k i.high i.exponent
  else !decimalLe a k i.low i.exponent && decimalLt a k i.high i.exponent

/-- Whether `a * 10 ^ k` is nearer to the centre than its successor, a tie going to the even one. -/
private def Interval.lowerIsNearer (i : Interval) (a : Nat) (k : Int) : Bool :=
  if decimalLt (2 * a + 1) k (2 * i.centre) i.exponent then false
  else if decimalLe (2 * a + 1) k (2 * i.centre) i.exponent then a % 2 == 0
  else true

/-- The multiple of `10 ^ k` in the interval that is nearest to its centre. -/
private def Interval.onGrid (i : Interval) (k : Int) : Option Nat :=
  let a := (i.centre * pow2 i.exponent * pow10 (-k)) / (pow2 (-i.exponent) * pow10 k)
  match i.contains a k, i.contains (a + 1) k with
  | true, true => some (if i.lowerIsNearer a k then a else a + 1)
  | true, false => some a
  | false, true => some (a + 1)
  | false, false => none

private def Interval.search (i : Interval) (k : Int) : Nat → Shortest
  | 0 => ⟨0, 0⟩
  | fuel + 1 => match i.onGrid k with
    | some a => ⟨a, k⟩
    | none => i.search (k - 1) fuel

/-- The grids are tried from the coarsest; the eighteenth below the leading digit always hits. -/
def ofBinary (x : Binary64) : Shortest :=
  if x.isZero then ⟨0, 0⟩ else
  let i := interval x
  let top : Int := ((Nat.log2 x.mantissa : Int) + x.exponent) * 30103 / 100000 + 1
  i.search top 20

end Shortest

/-- How numbers are written: the sign of a positive exponent is the one choice. -/
structure Style where
  plusInExponent : Bool

def Style.json : Style := ⟨true⟩

def Style.yaml : Style := ⟨false⟩

def zeros (n : Nat) : List Char := List.replicate n '0'

/-- Positional from `10 ^ (-5)` to below `10 ^ 16`, and then with a point always. -/
def Style.write (style : Style) (x : Binary64) : String :=
  let sign := if x.negative then "-" else ""
  let s := Shortest.ofBinary x
  let ds := (Nat.repr s.digits).toList
  let point : Int := ds.length + s.exponent
  let body : List Char :=
    if s.digits = 0 then ['0', '.', '0']
    else if 0 ≤ s.exponent && point ≤ 16 then ds ++ zeros s.exponent.toNat ++ ['.', '0']
    else if 0 < point && point ≤ 16 then ds.take point.toNat ++ '.' :: ds.drop point.toNat
    else if -5 < point && point ≤ 0 then '0' :: '.' :: zeros (-point).toNat ++ ds
    else
      let e := point - 1
      let mark := if e < 0 then ['-'] else if style.plusInExponent then ['+'] else []
      ds.take 1 ++ (if ds.length = 1 then [] else '.' :: ds.drop 1) ++
        'e' :: mark ++ (Nat.repr e.natAbs).toList
  sign ++ .ofList body

end OperatorScaffold.Decimal

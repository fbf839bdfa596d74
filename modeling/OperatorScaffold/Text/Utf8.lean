/-!
Texts as bytes. A text that is not valid is either refused or repaired: every longest start of a
character that does not go on becomes one replacement character.
-/

namespace OperatorScaffold.Text

def encodeUtf8 (s : String) : List UInt8 := s.toUTF8.toList

def decodeUtf8? (bytes : List UInt8) : Option String := String.fromUTF8? ⟨bytes.toArray⟩

private def isTail (b : UInt8) : Bool := 0x80 ≤ b && b ≤ 0xBF

private def isSecond (a b : UInt8) : Bool :=
  if a = 0xE0 then 0xA0 ≤ b && b ≤ 0xBF
  else if a = 0xED then 0x80 ≤ b && b ≤ 0x9F
  else if a = 0xF0 then 0x90 ≤ b && b ≤ 0xBF
  else if a = 0xF4 then 0x80 ≤ b && b ≤ 0x8F
  else isTail b

private def charOf (high : UInt8) (tails : List UInt8) : Char :=
  Char.ofNat (tails.foldl (fun n b => n * 64 + (b.toNat - 0x80)) high.toNat)

private def replacement : Char := '\uFFFD'

/-- The first character, and how many bytes of the rest it takes. -/
private def firstChar (a : UInt8) (rest : List UInt8) : Char × Nat :=
  if a < 0x80 then (Char.ofNat a.toNat, 0)
  else if 0xC2 ≤ a && a ≤ 0xDF then match rest with
    | b :: _ => if isTail b then (charOf (a - 0xC0) [b], 1) else (replacement, 0)
    | [] => (replacement, 0)
  else if 0xE0 ≤ a && a ≤ 0xEF then match rest with
    | b :: c :: _ =>
      if !isSecond a b then (replacement, 0)
      else if isTail c then (charOf (a - 0xE0) [b, c], 2) else (replacement, 1)
    | [b] => (replacement, if isSecond a b then 1 else 0)
    | [] => (replacement, 0)
  else if 0xF0 ≤ a && a ≤ 0xF4 then match rest with
    | b :: c :: d :: _ =>
      if !isSecond a b then (replacement, 0)
      else if !isTail c then (replacement, 1)
      else if isTail d then (charOf (a - 0xF0) [b, c, d], 3) else (replacement, 2)
    | [b, c] => (replacement, if isSecond a b then (if isTail c then 2 else 1) else 0)
    | [b] => (replacement, if isSecond a b then 1 else 0)
    | [] => (replacement, 0)
  else (replacement, 0)

private def repair : Nat → List UInt8 → List Char
  | 0, _ => []
  | _ + 1, [] => []
  | fuel + 1, a :: rest =>
    let (c, n) := firstChar a rest
    c :: repair fuel (rest.drop n)

def repairUtf8 (bytes : List UInt8) : String := .ofList (repair (bytes.length + 1) bytes)

end OperatorScaffold.Text

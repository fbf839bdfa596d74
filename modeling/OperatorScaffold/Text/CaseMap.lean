import OperatorScaffold.Text.CaseTable
/-!
Upper and lower case of characters and texts. A character can become a sequence, and a capital
sigma is lowered by its place in the word.
-/

namespace OperatorScaffold.Text

def mapCase (runs : List CaseRun) (sequences : List (Nat × List Nat)) (c : Char) : List Char :=
  match sequences.lookup c.toNat with
  | some cs => cs.map Char.ofNat
  | none => match runs.find? (·.contains c.toNat) with
    | some r => [Char.ofNat (c.toNat + r.offset).toNat]
    | none => [c]

def charLower (c : Char) : List Char :=
  if c.toNat < 0x80 then [c.toLower] else mapCase CaseTable.lower CaseTable.lowerSequences c

def charUpper (c : Char) : List Char :=
  if c.toNat < 0x80 then [c.toUpper] else mapCase CaseTable.upper CaseTable.upperSequences c

def isCased (c : Char) : Bool := CaseTable.cased.any (·.contains c.toNat)

def isCaseIgnorable (c : Char) : Bool := CaseTable.ignorable.any (·.contains c.toNat)

/-- Whether a word goes on in this direction. -/
def meetsCased (cs : List Char) : Bool :=
  match cs.dropWhile isCaseIgnorable with
  | [] => false
  | c :: _ => isCased c

/-- `before` holds the characters in front, nearest first. -/
def lowerAfter (before : List Char) : List Char → List Char
  | [] => []
  | c :: cs =>
    let low := if c = 'Σ' then [if meetsCased before && !meetsCased cs then 'ς' else 'σ'] else charLower c
    low ++ lowerAfter (c :: before) cs

def toLower (s : String) : String := .ofList (lowerAfter [] s.toList)

def lowerAscii (s : String) : String := .ofList (s.toList.map Char.toLower)

def upperFirst : List Char → List Char
  | [] => []
  | c :: cs => charUpper c ++ cs

def lowerFirst : List Char → List Char
  | [] => []
  | c :: cs => charLower c ++ cs

end OperatorScaffold.Text

import OperatorScaffold.Text.CaseMap
import OperatorScaffold.Text.Lines
/-!
Identifiers: plurals, the three spellings of a name, and the shapes that Kubernetes and Go ask for.
-/

namespace OperatorScaffold.Naming

open Text

def isDigit (c : Char) : Bool := '0' ≤ c && c ≤ '9'

def isUpper (c : Char) : Bool := 'A' ≤ c && c ≤ 'Z'

def isLower (c : Char) : Bool := 'a' ≤ c && c ≤ 'z'

def isAlphanumeric (c : Char) : Bool := isDigit c || isUpper c || isLower c

private def isVowel (c : Char) : Bool := c == 'a' || c == 'e' || c == 'i' || c == 'o' || c == 'u'

/-- The plural of a word given backwards. -/
private def pluralReversed : List Char → List Char
  | [] => []
  | 'y' :: c :: cs => if isVowel c then 's' :: 'y' :: c :: cs else 's' :: 'e' :: 'i' :: c :: cs
  | 's' :: cs => 's' :: 'e' :: 's' :: cs
  | 'x' :: cs => 's' :: 'e' :: 'x' :: cs
  | 'z' :: cs => 's' :: 'e' :: 'z' :: cs
  | 'h' :: 'c' :: cs => 's' :: 'e' :: 'h' :: 'c' :: cs
  | 'h' :: 's' :: cs => 's' :: 'e' :: 'h' :: 's' :: cs
  | cs => 's' :: cs

def regularPlural (kind : String) : String :=
  .ofList (pluralReversed (toLower kind).toList.reverse).reverse

def isWordGap (c : Char) : Bool := c == '-' || c == ' ' || c == '.'

/-- `done` holds what is written so far and `seen` what is read so far, both backwards. -/
def snakeAfter (done seen : List Char) : List Char → List Char
  | [] => done.reverse
  | c :: cs =>
    let parted := done.isEmpty || done.head? == some '_'
    if isWordGap c then snakeAfter (if parted then done else '_' :: done) (c :: seen) cs
    else if isUpper c then
      let afterLower := seen.head?.any fun p => isLower p || isDigit p
      let acronymEnds := seen.head?.any isUpper && cs.head?.any isLower
      let done := if !parted && (afterLower || acronymEnds) then '_' :: done else done
      snakeAfter (c.toLower :: done) (c :: seen) cs
    else snakeAfter (c :: done) (c :: seen) cs

def snakeCase (s : String) : String := .ofList (snakeAfter [] [] s.toList)

def isNameGap (c : Char) : Bool := c == '_' || isWordGap c

def upperCamelChars (s : List Char) : List Char := (splitWhere isNameGap s).flatMap upperFirst

def upperCamel (s : String) : String := .ofList (upperCamelChars s.toList)

def lowerCamel (s : String) : String := .ofList (lowerFirst (upperCamelChars s.toList))

def isUpperCamel (s : String) : Bool := s.toList.head?.any isUpper && s.toList.all isAlphanumeric

def isLowerCamel (s : String) : Bool := s.toList.head?.any isLower && s.toList.all isAlphanumeric

/-- A label of RFC 1123. -/
def isDnsLabel (s : String) : Bool :=
  let cs := s.toList
  !cs.isEmpty && cs.length ≤ 63 && cs.all (fun c => isLower c || isDigit c || c == '-') &&
  cs.head? != some '-' && cs.getLast? != some '-'

/-- A number without a leading zero. -/
def isCount : List Char → Bool
  | [] => false
  | c :: cs => c != '0' && isDigit c && cs.all isDigit

/-- An API version: `v`, a count, and perhaps `alpha` or `beta` with a count. -/
def isKubeVersion (s : String) : Bool :=
  match s.toList with
  | 'v' :: cs =>
    isCount (cs.takeWhile isDigit) &&
    match cs.dropWhile isDigit with
    | [] => true
    | 'a' :: 'l' :: 'p' :: 'h' :: 'a' :: n => isCount n
    | 'b' :: 'e' :: 't' :: 'a' :: n => isCount n
    | _ => false
  | _ => false

end OperatorScaffold.Naming

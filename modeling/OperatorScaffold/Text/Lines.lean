/-!
Texts and their lines. `chunks` keeps the line feeds, so that its concatenation is the text again;
`lines` drops them, and a carriage return before them.
-/

namespace OperatorScaffold.Text

/-- The pieces of a text that end with a line feed, and a last piece without one if there is any. -/
def chunks : List Char → List (List Char)
  | [] => []
  | c :: cs =>
    if c = '\n' then [c] :: chunks cs
    else match chunks cs with
      | [] => [[c]]
      | l :: ls => (c :: l) :: ls

/-- A chunk without its line end, which is a line feed or a carriage return and a line feed. -/
def chomp (l : List Char) : List Char :=
  match l.reverse with
  | '\n' :: '\r' :: r => r.reverse
  | '\n' :: r => r.reverse
  | _ => l

/-- The line with a line feed at its end, if it has none yet. -/
def closeLine (l : String) : String := if l.toList.getLast? = some '\n' then l else l ++ "\n"

def lines (s : String) : List String := (chunks s.toList).map fun l => .ofList (chomp l)

/-- Pieces between the characters that `p` holds of; there is always one more than such characters. -/
def splitWhere (p : Char → Bool) : List Char → List (List Char)
  | [] => [[]]
  | c :: cs =>
    if p c then [] :: splitWhere p cs
    else match splitWhere p cs with
      | [] => [[c]]
      | l :: ls => (c :: l) :: ls

def splitAtChar (sep : Char) (s : String) : List String :=
  (splitWhere (· == sep) s.toList).map .ofList

def hasPrefix (pre s : String) : Bool := pre.toList.isPrefixOf s.toList

def hasSuffix (suf s : String) : Bool := suf.toList.isSuffixOf s.toList

def dropPrefix? (pre s : String) : Option String :=
  if hasPrefix pre s then some (.ofList (s.toList.drop pre.toList.length)) else none

def dropSuffix? (suf s : String) : Option String :=
  if hasSuffix suf s then some (.ofList (s.toList.take (s.toList.length - suf.toList.length))) else none

def occursIn (needle : List Char) : List Char → Bool
  | [] => needle.isEmpty
  | c :: cs => needle.isPrefixOf (c :: cs) || occursIn needle cs

def contains (s needle : String) : Bool := occursIn needle.toList s.toList

theorem flatten_chunks (s : List Char) : (chunks s).flatten = s := by
  induction s with
  | nil => rfl
  | cons c cs ih =>
    unfold chunks
    split
    · simp [ih]
    · split <;> simp_all

theorem splitWhere_ne_nil (p : Char → Bool) (s : List Char) : splitWhere p s ≠ [] := by
  cases s with
  | nil => simp [splitWhere]
  | cons c cs =>
    unfold splitWhere
    split
    · simp
    · split <;> simp

end OperatorScaffold.Text

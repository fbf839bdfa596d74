/-!
Blank characters: the characters with the property `White_Space`, and cutting them off the ends
of a text.
-/

namespace OperatorScaffold.Text

def isBlank (c : Char) : Bool :=
  let n := c.toNat
  (0x09 ≤ n && n ≤ 0x0D) || n == 0x20 || n == 0x85 || n == 0xA0 || n == 0x1680 ||
  (0x2000 ≤ n && n ≤ 0x200A) || n == 0x2028 || n == 0x2029 || n == 0x202F || n == 0x205F ||
  n == 0x3000

def dropStart (p : Char → Bool) (s : String) : String := .ofList (s.toList.dropWhile p)

def dropEnd (p : Char → Bool) (s : String) : String :=
  .ofList (s.toList.reverse.dropWhile p).reverse

def trimStart : String → String := dropStart isBlank

def trimEnd : String → String := dropEnd isBlank

def trim (s : String) : String := trimEnd (trimStart s)

def isBlankText (s : String) : Bool := s.toList.all isBlank

/-- The text without its blank ends, if anything is left of it. -/
def nonBlank? (s : String) : Option String :=
  if trim s = "" then none else some (trim s)

end OperatorScaffold.Text

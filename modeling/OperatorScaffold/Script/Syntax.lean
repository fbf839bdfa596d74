/-!
Shell scripts: words made of pieces, and the commands that are made of words.
-/

namespace OperatorScaffold.Script

/-- A piece of a word; what a parameter stands for is split at blanks unless it is quoted. -/
inductive Piece where
  | bare (s : String)
  | quoted (s : String)
  | parameter (name : String) (quoted : Bool)
  deriving DecidableEq

abbrev Word := List Piece

inductive Direction where
  | write
  | append
  | read
  deriving DecidableEq

/-- Where a descriptor leads while a command runs. -/
inductive Redirect where
  | file (descriptor : Nat) (direction : Direction) (target : Word)
  | copy (descriptor source : Nat)
  deriving DecidableEq

inductive Command where
  | simple (line : Nat) (bindings : List (String × Word)) (words : List Word)
    (redirects : List Redirect)
  | both (first second : Command)
  | either (first second : Command)
  | negated (c : Command)
  | choice (test body otherwise : List Command)
  | each (name : String) (items : List Word) (body : List Command)
  /-- Whether a word fits one of the patterns. -/
  | fits (subject : Word) (patterns : List Word)
  | group (body : List Command)
  /-- A group whose parameters and exit are its own. -/
  | subshell (body : List Command)
  deriving Inhabited

/-- The text of a word that has no more than bare text. -/
def Word.bare? : Word → Option String
  | [.bare s] => some s
  | _ => none

def isNameStart (c : Char) : Bool := c.isAlpha || c == '_'

def isNameChar (c : Char) : Bool := c.isAlphanum || c == '_'

def isName (s : String) : Bool := s.toList.head?.any isNameStart && s.toList.all isNameChar

end OperatorScaffold.Script

import OperatorScaffold.Script.Syntax
/-!
The tokens of a shell script.
-/

namespace OperatorScaffold.Script

inductive Symbol where
  | newline
  | semicolon
  /-- The end of an arm of a case. -/
  | armEnd
  | bar
  | both
  | either
  | opening
  | closing
  /-- A redirection with its descriptor; `copies` says that the source is a descriptor too. -/
  | redirect (descriptor : Nat) (direction : Direction) (copies : Bool)
  deriving DecidableEq

inductive Token where
  | word (line : Nat) (w : Word)
  | symbol (s : Symbol)
  deriving DecidableEq

namespace Token

private def addBare (c : Char) : List Piece → List Piece
  | .bare s :: ps => .bare (s.push c) :: ps
  | ps => .bare (String.singleton c) :: ps

private def addQuoted (s : String) : List Piece → List Piece
  | .quoted t :: ps => .quoted (t ++ s) :: ps
  | ps => .quoted s :: ps

private def isSpecial (c : Char) : Bool := "@*#?$!-0123456789".toList.contains c

/-- The parameter behind a dollar sign, which stands for itself in front of anything else. -/
private def parameter? : List Char → Option (Option String × List Char)
  | [] => some (none, [])
  | '(' :: _ => none
  | '\x7b' :: cs =>
    let name := String.ofList (cs.takeWhile (· != '\x7d'))
    match cs.dropWhile (· != '\x7d') with
    | _ :: rest =>
      if isName name || (name.length = 1 && name.toList.all isSpecial) then some (some name, rest)
      else none
    | [] => none
  | c :: cs =>
    if isSpecial c then some (some (String.singleton c), cs)
    else if isNameStart c then
      some (some (.ofList (c :: cs.takeWhile isNameChar)), cs.dropWhile isNameChar)
    else some (none, c :: cs)

/-- Reads on inside double quotes, up to the closing one. -/
private def inQuotes : Nat → List Piece → List Char → Option (List Piece × List Char)
  | 0, _, _ => none
  | _ + 1, _, [] => none
  | fuel + 1, ps, c :: cs =>
    if c = '"' then some (ps, cs)
    else if c = '`' then none
    else if c = '$' then match parameter? cs with
      | none => none
      | some (some name, rest) => inQuotes fuel (.parameter name true :: ps) rest
      | some (none, rest) => inQuotes fuel (addQuoted "$" ps) rest
    else if c = '\\' then match cs with
      | '\n' :: rest => inQuotes fuel ps rest
      | d :: rest =>
        if d = '$' || d = '"' || d = '\\' || d = '`' then
          inQuotes fuel (addQuoted (String.singleton d) ps) rest
        else inQuotes fuel (addQuoted (.ofList ['\\', d]) ps) rest
      | [] => none
    else inQuotes fuel (addQuoted (String.singleton c) ps) cs

private def isWordEnd (c : Char) : Bool := " \t\n;&|<>()".toList.contains c

/-- Reads on in a word, whose pieces come backwards. -/
private def inWord : Nat → List Piece → List Char → Option (List Piece × List Char)
  | 0, _, _ => none
  | _ + 1, ps, [] => some (ps, [])
  | fuel + 1, ps, c :: cs =>
    if isWordEnd c then some (ps, c :: cs)
    else if c = '`' then none
    else if c = '\'' then match cs.dropWhile (· != '\'') with
      | _ :: rest => inWord fuel (addQuoted (.ofList (cs.takeWhile (· != '\''))) ps) rest
      | [] => none
    else if c = '"' then match inQuotes fuel (addQuoted "" ps) cs with
      | some (ps, rest) => inWord fuel ps rest
      | none => none
    else if c = '$' then match parameter? cs with
      | none => none
      | some (some name, rest) => inWord fuel (.parameter name false :: ps) rest
      | some (none, rest) => inWord fuel (addBare '$' ps) rest
    else if c = '\\' then match cs with
      | '\n' :: rest => inWord fuel ps rest
      | d :: rest => inWord fuel (addQuoted (String.singleton d) ps) rest
      | [] => some (addBare '\\' ps, [])
    else inWord fuel (addBare c ps) cs

private def redirection? (descriptor : Option Nat) : List Char → Option (Symbol × List Char)
  | '>' :: '>' :: cs => some (.redirect (descriptor.getD 1) .append false, cs)
  | '>' :: '&' :: cs => some (.redirect (descriptor.getD 1) .write true, cs)
  | '>' :: cs => some (.redirect (descriptor.getD 1) .write false, cs)
  | '<' :: '&' :: cs => some (.redirect (descriptor.getD 0) .read true, cs)
  | '<' :: cs => some (.redirect (descriptor.getD 0) .read false, cs)
  | _ => none

private def symbol? (cs : List Char) : Option (Symbol × List Char) :=
  match cs with
  | '\n' :: rest => some (.newline, rest)
  | ';' :: ';' :: rest => some (.armEnd, rest)
  | ';' :: rest => some (.semicolon, rest)
  | '&' :: '&' :: rest => some (.both, rest)
  | '|' :: '|' :: rest => some (.either, rest)
  | '|' :: rest => some (.bar, rest)
  | '(' :: rest => some (.opening, rest)
  | ')' :: rest => some (.closing, rest)
  | _ => redirection? none cs

private def newlines (cs : List Char) : Nat := (cs.filter (· == '\n')).length

private def descriptor? (ps : List Piece) : Option Nat :=
  match ps with
  | [.bare s] => match s.toList with
    | [c] => if c.isDigit then some (c.toNat - '0'.toNat) else none
    | _ => none
  | _ => none

private def tokensFrom : Nat → Nat → List Char → Option (List Token)
  | 0, _, _ => none
  | _ + 1, _, [] => some []
  | fuel + 1, line, c :: cs =>
    if c = ' ' || c = '\t' then tokensFrom fuel line cs
    else if c = '#' then tokensFrom fuel line (cs.dropWhile (· != '\n'))
    else if c = '\\' && cs.head? = some '\n' then tokensFrom fuel (line + 1) (cs.drop 1)
    else match symbol? (c :: cs) with
      | some (s, rest) => do
        let line := if s = .newline then line + 1 else line
        return .symbol s :: (← tokensFrom fuel line rest)
      | none => do
        if isWordEnd c then none
        let (pieces, rest) ← inWord (cs.length + 2) [] (c :: cs)
        match descriptor? pieces, redirection? (descriptor? pieces) rest with
        | some _, some (s, rest) => return .symbol s :: (← tokensFrom fuel line rest)
        | _, _ =>
          let taken := newlines (c :: cs) - newlines rest
          return .word line pieces.reverse :: (← tokensFrom fuel (line + taken) rest)

/-- The tokens of a script, or `none` where it uses more than is known here. -/
def ofText (text : String) : Option (List Token) :=
  tokensFrom (text.toList.length + 1) 1 text.toList

end Token

end OperatorScaffold.Script

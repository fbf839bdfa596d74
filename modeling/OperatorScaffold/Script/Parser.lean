import OperatorScaffold.Script.Token
/-!
The commands of a shell script: lists, conditions, cases, loops over words, and groups.
-/

namespace OperatorScaffold.Script

/-- The tokens that are left. -/
abbrev Parser := StateT (List Token) Option

namespace Parser

private def peek? : Parser (Option Token) := return (← get).head?

private def drop : Parser Unit := modify (·.drop 1)

/-- A word that means something where a command starts. -/
private def reserved? : Parser (Option String) := do
  match ← peek? with
  | some (.word _ w) => return w.bare?
  | _ => return none

private def keyword (s : String) : Parser Unit := do
  if (← reserved?) = some s then drop else failure

private def isTerminator (s : String) : Bool :=
  ["then", "else", "elif", "fi", "do", "done", "esac", "\x7d"].contains s

private def skipNewlines : Nat → Parser Unit
  | 0 => return
  | fuel + 1 => do
    if (← peek?) = some (.symbol .newline) then
      drop
      skipNewlines fuel

private def skipSeparators : Nat → Parser Unit
  | 0 => return
  | fuel + 1 => do
    match ← peek? with
    | some (.symbol .newline) => drop; skipSeparators fuel
    | some (.symbol .semicolon) => drop; skipSeparators fuel
    | _ => return

private def takeWord : Parser Word := do
  match ← peek? with
  | some (.word _ w) => drop; return w
  | _ => failure

private def redirect (descriptor : Nat) (direction : Direction) (copies : Bool) : Parser Redirect := do
  let target ← takeWord
  if !copies then return .file descriptor direction target
  match target.bare?.map (·.toList) with
  | some [c] => if c.isDigit then return .copy descriptor (c.toNat - '0'.toNat) else failure
  | _ => failure

/-- The parts of a simple command, backwards. -/
private structure Parts where
  bindings : List (String × Word)
  words : List Word
  redirects : List Redirect

private def binding? : Word → Option (String × Word)
  | .bare s :: ps =>
    let name := String.ofList (s.toList.takeWhile (· != '='))
    match s.toList.dropWhile (· != '=') with
    | _ :: rest =>
      if isName name then some (name, if rest.isEmpty then ps else .bare (.ofList rest) :: ps) else none
    | [] => none
  | _ => none

private def parts : Nat → Parts → Parser Parts
  | 0, _ => failure
  | fuel + 1, acc => do
    match ← peek? with
    | some (.word _ w) =>
      drop
      match acc.words, binding? w with
      | [], some b => parts fuel { acc with bindings := b :: acc.bindings }
      | _, _ => parts fuel { acc with words := w :: acc.words }
    | some (.symbol (.redirect d direction copies)) =>
      drop
      let r ← redirect d direction copies
      parts fuel { acc with redirects := r :: acc.redirects }
    | _ => return acc

private def expect (s : Symbol) : Parser Unit := do
  if (← peek?) = some (.symbol s) then drop else failure

/-- The patterns of an arm, up to the parenthesis behind them. -/
private def patterns : Nat → Parser (List Word)
  | 0 => failure
  | fuel + 1 => do
    let w ← takeWord
    if (← peek?) = some (.symbol .bar) then
      drop
      return w :: (← patterns fuel)
    expect .closing
    return [w]

private def lineHere : Parser Nat := do
  match ← peek? with
  | some (.word line _) => return line
  | _ => return 1

private def words : Nat → Parser (List Word)
  | 0 => failure
  | fuel + 1 => do
    match ← peek? with
    | some (.word _ w) => drop; return w :: (← words fuel)
    | _ => return []

mutual

/-- Commands up to a word or a sign that ends them. -/
private def commands : Nat → Parser (List Command)
  | 0 => failure
  | fuel + 1 => do
    skipSeparators fuel
    match ← peek? with
    | none => return []
    | some (.symbol .closing) => return []
    | some (.symbol .armEnd) => return []
    | _ =>
      if (← reserved?).any isTerminator then return []
      let first ← link fuel
      let c ← linked fuel first
      match ← peek? with
      | none => return [c]
      | some (.symbol .newline) => return c :: (← commands fuel)
      | some (.symbol .semicolon) => return c :: (← commands fuel)
      | some (.symbol .closing) => return [c]
      | some (.symbol .armEnd) => return [c]
      | _ => failure

/-- The rest of a chain of commands joined by `&&` and `||`. -/
private def linked : Nat → Command → Parser Command
  | 0, _ => failure
  | fuel + 1, c => do
    match ← peek? with
    | some (.symbol .both) => drop; skipNewlines fuel; linked fuel (.both c (← link fuel))
    | some (.symbol .either) => drop; skipNewlines fuel; linked fuel (.either c (← link fuel))
    | _ => return c

private def link : Nat → Parser Command
  | 0 => failure
  | fuel + 1 => do
    if (← reserved?) = some "!" then
      drop
      return .negated (← command fuel)
    command fuel

private def command : Nat → Parser Command
  | 0 => failure
  | fuel + 1 => do
    match ← reserved?, ← peek? with
    | some "if", _ => drop; condition fuel
    | some "for", _ =>
      drop
      let some name := (← takeWord).bare? | failure
      keyword "in"
      let items ← words fuel
      skipSeparators fuel
      keyword "do"
      let body ← commands fuel
      keyword "done"
      return .each name items body
    | some "case", _ =>
      drop
      let subject ← takeWord
      skipNewlines fuel
      keyword "in"
      return .group (← arms fuel subject)
    | some "\x7b", _ =>
      drop
      let body ← commands fuel
      keyword "\x7d"
      return .group body
    | _, some (.symbol .opening) =>
      drop
      let body ← commands fuel
      expect .closing
      return .subshell body
    | _, _ =>
      let line ← lineHere
      let p ← parts fuel ⟨[], [], []⟩
      if p.words.isEmpty && p.bindings.isEmpty && p.redirects.isEmpty then failure
      return .simple line p.bindings.reverse p.words.reverse p.redirects.reverse

/-- The arms of a case: the first that fits is run, and nothing if none does. -/
private def arms : Nat → Word → Parser (List Command)
  | 0, _ => failure
  | fuel + 1, subject => do
    skipSeparators fuel
    if (← reserved?) = some "esac" then
      drop
      return []
    if (← peek?) = some (.symbol .opening) then drop
    let ps ← patterns fuel
    let body ← commands fuel
    if (← peek?) = some (.symbol .armEnd) then drop
    return [.choice [.fits subject ps] body (← arms fuel subject)]

/-- The rest of a condition behind `if` or `elif`. -/
private def condition : Nat → Parser Command
  | 0 => failure
  | fuel + 1 => do
    let test ← commands fuel
    keyword "then"
    let body ← commands fuel
    match ← reserved? with
    | some "elif" => drop; return .choice test body [← condition fuel]
    | some "else" =>
      drop
      let otherwise ← commands fuel
      keyword "fi"
      return .choice test body otherwise
    | _ => keyword "fi"; return .choice test body []

end

end Parser

def read (text : String) : Option (List Command) := do
  let tokens ← Token.ofText text
  let (cs, rest) ← (Parser.commands (8 * tokens.length + 8)).run tokens
  if rest.isEmpty then some cs else none

end OperatorScaffold.Script

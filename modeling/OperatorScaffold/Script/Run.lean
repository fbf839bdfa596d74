import OperatorScaffold.Files.Workspace
import OperatorScaffold.Script.Parser
/-!
Running a shell script in the workspace. What a command writes goes where its descriptors lead; a
script ends with the status of its last command, unless it exits before or is killed.
-/

namespace OperatorScaffold.Script

inductive Sink where
  | output
  | errors
  | file (p : Place)
  | nowhere
  deriving DecidableEq

structure Shell where
  space : Workspace
  directory : Place
  name : String
  arguments : List String
  bindings : List (String × String)
  status : Nat
  /-- A command that fails ends the script. -/
  strict : Bool
  output : List UInt8
  errors : List UInt8
  /-- Where the first two descriptors lead. -/
  out : Sink
  err : Sink

/-- How a script comes to its end. -/
inductive Ending where
  | exited (status : Nat)
  | killed
  deriving DecidableEq

def processId : String := "4242"

namespace Shell

def emit (sh : Shell) (sink : Sink) (bytes : List UInt8) : Shell :=
  match sink with
  | .output => { sh with output := sh.output ++ bytes }
  | .errors => { sh with errors := sh.errors ++ bytes }
  | .nowhere => sh
  | .file p => match sh.space.files.at? p with
    | some (.file content mode) =>
      { sh with space := sh.space.put p (.file (.ofBytes (content.bytes ++ bytes)) mode) }
    | _ => sh

def say (sh : Shell) (s : String) : Shell := sh.emit sh.out (Text.encodeUtf8 s)

def complain (sh : Shell) (s : String) : Shell := sh.emit sh.err (Text.encodeUtf8 (s ++ "\n"))

def done (sh : Shell) (status : Nat) : Shell := { sh with status }

/-- What stands at a path, seen from the shell's directory. -/
def locate (sh : Shell) (p : String) : Except FileError (Place × Entry) :=
  sh.space.files.locate sh.directory ⟨p⟩

/-- Makes an empty file, if there is nothing at the path yet. -/
def touch (sh : Shell) (p : String) : Except FileError (Place × Shell) :=
  match sh.locate p with
  | .ok (q, _) => .ok (q, sh)
  | .error .noEntry => do
    match ← sh.space.files.slot sh.directory ⟨p⟩ with
    | .nameless => throw .noEntry
    | .named d n _ =>
      return (d ++ [n], { sh with
        space := sh.space.put (d ++ [n]) (.file (.text "") Workspace.newFileMode) })
  | .error e => .error e

def parameter (sh : Shell) (name : String) : String :=
  if name = "#" then toString sh.arguments.length
  else if name = "?" then toString sh.status
  else if name = "$" then processId
  else if name = "0" then sh.name
  else if name = "@" || name = "*" then " ".intercalate sh.arguments
  else match name.toList with
    | [c] => if c.isDigit then (sh.arguments[c.toNat - '0'.toNat - 1]?).getD "" else
      (sh.bindings.lookup name).getD ""
    | _ => (sh.bindings.lookup name).getD ""

private def isBlankChar (c : Char) : Bool := c == ' ' || c == '\t' || c == '\n'

/-- Fields that are complete, backwards, and the one that is being made. -/
private structure Fields where
  complete : List String
  open? : Option String

private def Fields.add (f : Fields) (s : String) : Fields := { f with open? := some (f.open?.getD "" ++ s) }

private def Fields.close (f : Fields) : Fields :=
  match f.open? with
  | some s => ⟨s :: f.complete, none⟩
  | none => f

private def Fields.split (f : Fields) (s : String) : Fields :=
  s.toList.foldl (fun f c => if isBlankChar c then f.close else f.add (String.singleton c)) f

private def Fields.addAll (f : Fields) (ss : List String) : Fields :=
  match ss with
  | [] => f
  | [s] => f.add s
  | s :: rest => (f.add s).close.addAll rest

private def expandPiece (sh : Shell) (f : Fields) : Piece → Fields
  | .bare s => f.add s
  | .quoted s => f.add s
  | .parameter "@" true =>
    -- an empty list leaves no field of its own behind
    if sh.arguments.isEmpty then (if f.open? = some "" then { f with open? := none } else f)
    else f.addAll sh.arguments
  | .parameter name true => f.add (sh.parameter name)
  | .parameter name false => f.split (sh.parameter name)

def expand (sh : Shell) (w : Word) : List String :=
  (w.foldl (expandPiece sh) ⟨[], none⟩).close.complete.reverse

def expandAll (sh : Shell) (ws : List Word) : List String := ws.flatMap sh.expand

/-- The value of a word where it is not split. -/
def value (sh : Shell) (w : Word) : String := " ".intercalate (sh.expand w)

/-- A part of a pattern. -/
private inductive Wild where
  | char (c : Char)
  | one
  | many
  deriving DecidableEq

private def wildOf (c : Char) : Wild := if c = '*' then .many else if c = '?' then .one else .char c

private def wilds (sh : Shell) : Piece → List Wild
  | .bare s => s.toList.map wildOf
  | .quoted s => s.toList.map .char
  | .parameter name true => (sh.parameter name).toList.map .char
  | .parameter name false => (sh.parameter name).toList.map wildOf

private def suffixes : List Char → List (List Char)
  | [] => [[]]
  | c :: cs => (c :: cs) :: suffixes cs

private def fitsWilds : List Wild → List Char → Bool
  | [], cs => cs.isEmpty
  | .char c :: ps, cs => cs.head? = some c && fitsWilds ps (cs.drop 1)
  | .one :: ps, cs => !cs.isEmpty && fitsWilds ps (cs.drop 1)
  | .many :: ps, cs => (suffixes cs).any (fitsWilds ps)

def fits (sh : Shell) (subject : Word) (patterns : List Word) : Bool :=
  patterns.any fun p => fitsWilds (p.flatMap sh.wilds) (sh.value subject).toList

end Shell

/-- What runs under a name, with its arguments. -/
abbrev Program := List String → Shell → Shell × Option Ending

namespace Program

private def ofShell (f : List String → Shell → Shell) : Program := fun args sh => (f args sh, none)

private def escapeChar? (c : Char) : Option UInt8 :=
  ([('a', 7), ('b', 8), ('f', 12), ('n', 10), ('r', 13), ('t', 9), ('v', 11), ('\\', 92)] :
    List (Char × UInt8)).lookup c

private def isOctal (c : Char) : Bool := '0' ≤ c && c ≤ '7'

private def octalByte (cs : List Char) : UInt8 :=
  (cs.foldl (fun n c => n * 8 + (c.toNat - '0'.toNat)) 0).toUInt8

/-- The byte behind a backslash. -/
private def escape? (cs : List Char) : Option (UInt8 × List Char) :=
  match cs with
  | [] => none
  | c :: rest =>
    if isOctal c then
      let digits := (cs.take 3).takeWhile isOctal
      some (octalByte digits, cs.drop digits.length)
    else (escapeChar? c).map (·, rest)

private def charBytes (c : Char) : List UInt8 := Text.encodeUtf8 (String.singleton c)

private def unescape : Nat → List Char → List UInt8
  | 0, _ => []
  | _ + 1, [] => []
  | fuel + 1, c :: cs =>
    if c = '\\' then match escape? cs with
      | some (b, rest) => b :: unescape fuel rest
      | none => 92 :: unescape fuel cs
    else charBytes c ++ unescape fuel cs

def echo : Program := ofShell fun args sh =>
  let (args, tail) : List String × List UInt8 := match args with
    | "-n" :: rest => (rest, [])
    | _ => (args, [10])
  let text := (" ".intercalate args).toList
  (sh.emit sh.out (unescape (text.length + 1) text ++ tail)).done 0

/-- One pass over a format, and the arguments it leaves. -/
private def format : Nat → List String → List Char → List UInt8 × List String
  | 0, args, _ => ([], args)
  | _ + 1, args, [] => ([], args)
  | fuel + 1, args, c :: cs =>
    let go (bytes : List UInt8) (args : List String) (rest : List Char) :=
      let (more, left) := format fuel args rest
      (bytes ++ more, left)
    if c = '\\' then match escape? cs with
      | some (b, rest) => go [b] args rest
      | none => go [92] args cs
    else if c = '%' then match cs with
      | '%' :: rest => go [37] args rest
      | 's' :: rest => go (Text.encodeUtf8 (args.headD "")) (args.drop 1) rest
      | 'd' :: rest => go (Text.encodeUtf8 (toString ((args.headD "").toInt?.getD 0))) (args.drop 1) rest
      | _ => go [37] args cs
    else go (charBytes c) args cs

private def formatAll (text : List Char) : Nat → List String → List UInt8
  | 0, _ => []
  | fuel + 1, args =>
    let (bytes, left) := format (text.length + 1) args text
    if left.isEmpty || left.length = args.length then bytes else bytes ++ formatAll text fuel left

def printf : Program := ofShell fun args sh =>
  match args with
  | [] => sh.done 2
  | text :: rest => (sh.emit sh.out (formatAll text.toList (rest.length + 1) rest)).done 0

private def reason : FileError → String
  | .noEntry => "No such file or directory"
  | .alreadyExists => "File exists"
  | .notDirectory => "Not a directory"
  | .isDirectory => "Is a directory"
  | _ => "Invalid argument"

/-- Does something for each argument, and fails if it fails for any. -/
private def forEachPath (act : Shell → String → Except String Shell) : Program :=
  ofShell fun args sh => args.foldl
    (fun sh a => match act sh a with
      | .ok sh => sh
      | .error message => (sh.complain message).done 1)
    (sh.done 0)

def touch : Program := forEachPath fun sh a =>
  match sh.touch a with
  | .ok (_, sh) => .ok sh
  | .error e => .error s!"touch: cannot touch '{a}': {reason e}"

def cat : Program := forEachPath fun sh a =>
  match sh.locate a with
  | .ok (_, .file content _) => .ok (sh.emit sh.out content.bytes)
  | .ok _ => .error s!"cat: {a}: Is a directory"
  | .error e => .error s!"cat: {a}: {reason e}"

private def shellWorkspace (sh : Shell) : Workspace := { sh.space with directory := sh.directory }

private def makeOne (parents : Bool) (sh : Shell) (a : String) : Except String Shell :=
  let made : Except FileError Workspace :=
    if parents then match Workspace.makeDirectories (Path.ancestors ⟨a⟩) (shellWorkspace sh) with
      | (.ok (), w) => .ok w
      | (.error e, _) => .error e
    else (shellWorkspace sh).makeDirectory ⟨a⟩
  match made with
  | .ok w => .ok { sh with space := { w with directory := sh.space.directory } }
  | .error e => .error s!"mkdir: cannot create directory '{a}': {reason e}"

def mkdir : Program := fun args sh =>
  match args with
  | "-p" :: rest => forEachPath (makeOne true) rest sh
  | _ => forEachPath (makeOne false) args sh

private def isRemovalFlag (s : String) : Bool := ["-r", "-f", "-rf", "-fr"].contains s

private def removeOne (everything quiet : Bool) (sh : Shell) (a : String) : Except String Shell :=
  let gone (p : Place) : Shell := { sh with space := { sh.space with files := sh.space.files.erase p } }
  match sh.locate a with
  | .ok (p, .directory) =>
    if everything then .ok (gone p) else .error s!"rm: cannot remove '{a}': Is a directory"
  | .ok (p, _) => .ok (gone p)
  | .error e => if quiet then .ok sh else .error s!"rm: cannot remove '{a}': {reason e}"

def rm : Program := fun args sh =>
  let flags := String.join (args.takeWhile isRemovalFlag)
  forEachPath (removeOne (flags.toList.contains 'r') (flags.toList.contains 'f'))
    (args.dropWhile isRemovalFlag) sh

private def kindIs (p : Entry → Bool) (sh : Shell) (a : String) : Bool :=
  match sh.locate a with
  | .ok (_, e) => p e
  | .error _ => false

private def isFileEntry : Entry → Bool
  | .file .. => true
  | _ => false

private def holdsSomething : Entry → Bool
  | .file c _ => !c.bytes.isEmpty
  | _ => true

private def isRunnable : Entry → Bool
  | .file _ mode => mode &&& 0o111 != 0
  | _ => true

private def compare? (op : String) (a b : Int) : Option Bool :=
  ([("-eq", a == b), ("-ne", a != b), ("-lt", a < b), ("-le", a ≤ b), ("-gt", b < a),
    ("-ge", b ≤ a)] : List (String × Bool)).lookup op

/-- A condition, or `none` where it is not understood. -/
private def holds? (sh : Shell) : List String → Option Bool
  | [] => some false
  | [a] => some (a ≠ "")
  | "!" :: rest => (holds? sh rest).map (!·)
  | [op, a] => match op with
    | "-n" => some (a ≠ "")
    | "-z" => some (a = "")
    | "-e" => some (kindIs (fun _ => true) sh a)
    | "-f" => some (kindIs isFileEntry sh a)
    | "-d" => some (kindIs (· == .directory) sh a)
    | "-s" => some (kindIs holdsSomething sh a)
    | "-r" => some (kindIs (fun _ => true) sh a)
    | "-w" => some (kindIs (fun _ => true) sh a)
    | "-x" => some (kindIs isRunnable sh a)
    | _ => none
  | [a, op, b] => match op with
    | "=" => some (a = b)
    | "==" => some (a = b)
    | "!=" => some (a ≠ b)
    | _ => do compare? op (← a.toInt?) (← b.toInt?)
  | _ => none

def test : Program := ofShell fun args sh =>
  match holds? sh args with
  | some true => sh.done 0
  | some false => sh.done 1
  | none => sh.done 2

def bracket : Program := fun args sh =>
  if args.getLast? = some "]" then test args.dropLast sh
  else (sh.complain s!"{sh.name}: 1: [: missing ]" |>.done 2, none)

def pwd : Program := ofShell fun _ sh => (sh.say ((Path.ofPlace sh.directory).text ++ "\n")).done 0

def cd : Program := ofShell fun args sh =>
  match sh.locate (args.headD ".") with
  | .ok (p, .directory) => { sh with directory := p }.done 0
  | _ => sh.done 2

def exit : Program := fun args sh =>
  let status := ((args.head?.bind (·.toNat?)).getD sh.status) % 256
  (sh.done status, some (.exited status))

def kill : Program := fun args sh =>
  if args.contains processId && args.head? ≠ some "-0" then (sh, some .killed) else (sh.done 0, none)

def shift : Program := ofShell fun _ sh => { sh with arguments := sh.arguments.drop 1 }.done 0

def set : Program := ofShell fun args sh =>
  let strict := args.any fun a => Text.hasPrefix "-" a && a.toList.contains 'e'
  { sh with strict := sh.strict || strict }.done 0

def succeed : Program := ofShell fun _ sh => sh.done 0

def fail : Program := ofShell fun _ sh => sh.done 1

def table : List (String × Program) :=
  [("echo", echo), ("printf", printf), ("touch", touch), ("cat", cat), ("mkdir", mkdir), ("rm", rm),
    ("test", test), ("[", bracket), ("pwd", pwd), ("true", succeed), ("false", fail),
    ("sleep", succeed), ("cd", cd), ("exit", exit), ("kill", kill), ("shift", shift),
    (":", succeed), ("set", set)]

/-- Whether a program is a file of its own, and not only a part of the shell. -/
def standsAlone (name : String) : Bool :=
  ["echo", "printf", "touch", "cat", "mkdir", "rm", "test", "[", "pwd", "true", "false", "sleep"].contains name

end Program

namespace Shell

private def openSink (sh : Shell) (line : Nat) (d : Direction) (p : String) : Except String (Sink × Shell) :=
  if p = "/dev/null" then .ok (.nowhere, sh)
  else if d = .read then match sh.locate p with
    | .ok _ => .ok (.nowhere, sh)
    | .error _ => .error s!"{sh.name}: {line}: cannot open {p}: No such file"
  else match sh.touch p with
    | .ok (q, sh) => match sh.space.files.at? q with
      | some (.file content mode) =>
        let kept : Content := if d = .write then .text "" else content
        .ok (.file q, { sh with space := sh.space.put q (.file kept mode) })
      | _ => .error s!"{sh.name}: {line}: cannot create {p}: Is a directory"
    | .error _ => .error s!"{sh.name}: {line}: cannot create {p}: Directory nonexistent"

private def lead (sh : Shell) (descriptor : Nat) (s : Sink) : Shell :=
  if descriptor = 1 then { sh with out := s } else if descriptor = 2 then { sh with err := s } else sh

private def redirectAll (line : Nat) : List Redirect → Shell → Except (String × Shell) Shell
  | [], sh => .ok sh
  | .copy d s :: rs, sh =>
    redirectAll line rs (if s = 1 then sh.lead d sh.out else if s = 2 then sh.lead d sh.err else sh)
  | .file d direction target :: rs, sh => match sh.openSink line direction (sh.value target) with
    | .ok (sink, sh) => redirectAll line rs (sh.lead d sink)
    | .error message => .error (message, sh)

private def bind (sh : Shell) (bindings : List (String × Word)) : Shell :=
  bindings.foldl (fun sh b => { sh with bindings := (b.1, sh.value b.2) :: sh.bindings }) sh

def runSimple (line : Nat) (bindings : List (String × Word)) (words : List Word)
    (redirects : List Redirect) (sh : Shell) : Shell × Option Ending :=
  let fields := sh.expandAll words
  match sh.redirectAll line redirects with
  | .error (message, sh) => (sh.complain message |>.done 2, none)
  | .ok led =>
    let (after, ending) := match fields with
      | [] => ((led.bind bindings).done 0, none)
      | name :: args => match Program.table.lookup name with
        | some p => p args led
        | none => ((led.complain s!"{led.name}: {line}: {name}: not found").done 127, none)
    ({ after with out := sh.out, err := sh.err }, ending)

/-- A strict shell ends where a command has failed. -/
private def checked : Shell × Option Ending → Shell × Option Ending
  | (sh, some e) => (sh, some e)
  | (sh, none) => (sh, if sh.strict && sh.status ≠ 0 then some (.exited sh.status) else none)

/-- The shell with failures allowed, as they are where they only decide what comes next. -/
private def lenient (sh : Shell) : Shell := { sh with strict := false }

private def restore (sh : Shell) (x : Shell × Option Ending) : Shell × Option Ending :=
  ({ x.1 with strict := sh.strict }, x.2)

/-- What a subshell leaves to the shell it was started from. -/
private def leave (sh : Shell) (x : Shell × Option Ending) : Shell × Option Ending :=
  let back : Shell := { sh with space := x.1.space, output := x.1.output, errors := x.1.errors }
  match x.2 with
  | none => (back.done x.1.status, none)
  | some (.exited n) => (back.done n, none)
  | some .killed => (back, some .killed)

mutual

def run (sh : Shell) : Command → Shell × Option Ending
  | .simple line bindings words redirects => checked (sh.runSimple line bindings words redirects)
  | .both a b => match sh.restore (sh.lenient.run a) with
    | (sh, some e) => (sh, some e)
    | (sh, none) => if sh.status = 0 then sh.run b else (sh, none)
  | .either a b => match sh.restore (sh.lenient.run a) with
    | (sh, some e) => (sh, some e)
    | (sh, none) => if sh.status = 0 then (sh, none) else sh.run b
  | .negated c => match sh.restore (sh.lenient.run c) with
    | (sh, some e) => (sh, some e)
    | (sh, none) => (sh.done (if sh.status = 0 then 1 else 0), none)
  | .choice test body otherwise => match sh.restore (sh.lenient.runAll test) with
    | (sh, some e) => (sh, some e)
    | (sh, none) =>
      if sh.status = 0 then sh.runAll body
      else (sh.done 0).runAll otherwise
  | .each name items body => sh.runEach name body (sh.expandAll items)
  | .fits subject patterns => (sh.done (if sh.fits subject patterns then 0 else 1), none)
  | .group body => sh.runAll body
  | .subshell body => checked (sh.leave (sh.runAll body))

def runAll (sh : Shell) : List Command → Shell × Option Ending
  | [] => (sh, none)
  | c :: cs => match sh.run c with
    | (sh, some e) => (sh, some e)
    | (sh, none) => sh.runAll cs

def runEach (sh : Shell) (name : String) (body : List Command) : List String → Shell × Option Ending
  | [] => (sh, none)
  | v :: vs => match { sh with bindings := (name, v) :: sh.bindings }.runAll body with
    | (sh, some e) => (sh, some e)
    | (sh, none) => sh.runEach name body vs

end

end Shell

structure Result where
  ending : Ending
  output : List UInt8
  errors : List UInt8
  deriving DecidableEq

private def finish (x : Shell × Option Ending) : Result × Workspace :=
  (⟨x.2.getD (.exited x.1.status), x.1.output, x.1.errors⟩, x.1.space)

private def start (w : Workspace) (directory : Place) (name : String) (arguments : List String) : Shell :=
  ⟨w, directory, name, arguments, [], 0, false, [], [], .output, .errors⟩

def execute (w : Workspace) (directory : Place) (name : String) (arguments options : List String)
    (text : String) : Result × Workspace :=
  let (sh, _) := Program.set options (start w directory name arguments)
  match read text with
  | some cs => finish (sh.runAll cs)
  | none => finish ((sh.complain s!"{name}: 1: Syntax error").done 2, none)

def executeNamed (w : Workspace) (directory : Place) (name : String) (arguments : List String)
    (p : Program) : Result × Workspace :=
  finish (p arguments (start w directory name arguments))

end OperatorScaffold.Script

import OperatorScaffold.Text.Lines
/-!
Reading the arguments of a command by a table of its options. An option is named by a word behind
two dashes or by one letter behind one dash, and letters may share a dash. What an option takes
follows it, or is attached to it; the values of an option are looked at when the next option begins
or the arguments end.
-/

namespace OperatorScaffold.CommandLine

/-- What a value has to be. -/
inductive ValueKind where
  /-- A text that is not empty. -/
  | path
  | text
  | bool
  | word (words : List String)
  deriving DecidableEq

def ValueKind.accepts : ValueKind → String → Bool
  | .path, s => s ≠ ""
  | .text, _ => true
  | .bool, s => s = "true" || s = "false"
  | .word ws, s => ws.contains s

inductive OptionKind where
  | flag
  | value (kind : ValueKind)
  /-- One value or more, also between commas; it may be given more than once. -/
  | values (kind : ValueKind)
  | help
  | version
  deriving DecidableEq

def OptionKind.takesValue : OptionKind → Bool
  | .value _ => true
  | .values _ => true
  | _ => false

structure OptionSpec where
  long : String
  short : Option Char
  kind : OptionKind
  deriving DecidableEq

/-- Why a command line is not run. -/
inductive Refusal where
  | help
  | version
  | noCommand
  | unknownCommand (word : String)
  | unknownArgument (argument : String)
  | unneededValue (option : String)
  | invalidValue (option : String)
  | repeated (option : String)
  | missing (option : String)
  deriving DecidableEq

namespace Refusal

/-- Whether it only asks for information. -/
def isRequest : Refusal → Bool
  | .help => true
  | .version => true
  | _ => false

def message : Refusal → String
  | .help => "help was asked for"
  | .version => "the version was asked for"
  | .noCommand => "a command is missing"
  | .unknownCommand w => s!"there is no command '{w}'"
  | .unknownArgument a => s!"unexpected argument '{a}'"
  | .unneededValue o => s!"option '--{o}' takes no value"
  | .invalidValue o => s!"option '--{o}' needs another value"
  | .repeated o => s!"option '--{o}' cannot be given more than once"
  | .missing o => s!"option '--{o}' is required"

end Refusal

/-- The options that were given, each with its values. -/
abbrev Given := List (String × List String)

namespace Given

def has (g : Given) (option : String) : Bool := (g.lookup option).isSome

def value? (g : Given) (option : String) : Option String := (g.lookup option).bind (·.head?)

def bool? (g : Given) (option : String) : Option Bool := (g.value? option).map (· = "true")

def extend (o : String) (vs : List String) : Given → Given
  | [] => [(o, vs)]
  | (p, ws) :: es => if p = o then (p, ws ++ vs) :: es else (p, ws) :: extend o vs es

end Given

private def check (o : OptionSpec) (k : ValueKind) (vs : List String) : Except Refusal Unit :=
  if vs.all k.accepts then .ok () else .error (.invalidValue o.long)

def take (g : Given) (o : OptionSpec) (vs : List String) : Except Refusal Given :=
  match o.kind with
  | .help => .error .help
  | .version => .error .version
  | .flag => if g.has o.long then .error (.repeated o.long) else .ok (g.extend o.long [])
  | .value k => do
    if vs.isEmpty then throw (.invalidValue o.long)
    if g.has o.long then throw (.repeated o.long)
    check o k vs
    return g.extend o.long vs
  | .values k => do
    if vs.isEmpty then throw (.invalidValue o.long)
    let vs := vs.flatMap (Text.splitAtChar ',')
    check o k vs
    return g.extend o.long vs

/-- What is known when an argument is read: the options taken, and the one that still waits. -/
structure Progress where
  given : Given
  /-- The last option, with the values that followed it. -/
  waiting : Option (OptionSpec × List String)

namespace Progress

def settle (p : Progress) : Except Refusal Given :=
  match p.waiting with
  | none => .ok p.given
  | some (o, vs) => take p.given o vs

/-- Takes an option that has what it takes attached to it, or takes nothing. -/
def complete (p : Progress) (o : OptionSpec) (vs : List String) : Except Refusal Progress :=
  return ⟨← take (← p.settle) o vs, none⟩

def begin (p : Progress) (o : OptionSpec) : Except Refusal Progress :=
  return ⟨← p.settle, some (o, [])⟩

def longOption (specs : List OptionSpec) (p : Progress) (name : String) (attached : Option String) :
    Except Refusal Progress :=
  match specs.find? (·.long = name) with
  | none => .error (.unknownArgument ("--" ++ name))
  | some o =>
    if o.kind.takesValue then match attached with
      | some v => p.complete o [v]
      | none => p.begin o
    else if attached.isSome then .error (.unneededValue o.long)
    else p.complete o []

/-- Letters behind one dash; what follows an option that takes a value is its value. -/
def shortOptions (specs : List OptionSpec) (p : Progress) : List Char → Except Refusal Progress
  | [] => .ok p
  | c :: cs => match specs.find? (·.short = some c) with
    | none => .error (.unknownArgument ("-" ++ .singleton c))
    | some o =>
      if o.kind.takesValue then match cs with
        | [] => p.begin o
        | '=' :: v => p.complete o [.ofList v]
        | v => p.complete o [.ofList v]
      else do shortOptions specs (← p.complete o []) cs

/-- A word that is no option is a value of the option that waits for one. -/
def word (p : Progress) (w : String) : Except Refusal Progress :=
  match p.waiting with
  | none => .error (.unknownArgument w)
  | some (o, vs) => match o.kind, vs with
    | .value _, _ :: _ => .error (.unknownArgument w)
    | _, _ => .ok { p with waiting := some (o, vs ++ [w]) }

end Progress

/-- An argument by its shape. -/
inductive Shape where
  | escape
  | long (name : String) (attached : Option String)
  | short (letters : List Char)
  | word
  deriving DecidableEq

def shape (argument : String) : Shape :=
  match argument.toList with
  | ['-', '-'] => .escape
  | '-' :: '-' :: cs => match cs.dropWhile (· != '=') with
    | [] => .long (.ofList cs) none
    | _ :: v => .long (.ofList (cs.takeWhile (· != '='))) (some (.ofList v))
  | ['-'] => .word
  | '-' :: cs => .short cs
  | _ => .word

def scan (specs : List OptionSpec) (p : Progress) : List String → Except Refusal Given
  | [] => p.settle
  | a :: as => match shape a with
    | .escape => match as with
      | [] => p.settle
      | b :: _ => .error (.unknownArgument b)
    | .long name attached => do scan specs (← p.longOption specs name attached) as
    | .short letters => do scan specs (← p.shortOptions specs letters) as
    | .word => do scan specs (← p.word a) as

end OperatorScaffold.CommandLine

import OperatorScaffold.Decimal.Shortest
/-!
JSON values. An object lists its members in the order of their names, each name once; `insert`
keeps it so. `render` is the text without blanks.
-/

namespace OperatorScaffold

inductive Json where
  | null
  | bool (b : Bool)
  | int (n : Int)
  | float (x : Decimal.Binary64)
  | str (s : String)
  | arr (items : List Json)
  | obj (members : List (String × Json))
  deriving Inhabited

namespace Json

/-- Puts a member in its place, over one of the same name. -/
def insertMember {α : Type} (name : String) (value : α) : List (String × α) → List (String × α)
  | [] => [(name, value)]
  | (n, v) :: ms =>
    if name < n then (name, value) :: (n, v) :: ms
    else if name = n then (name, value) :: ms
    else (n, v) :: insertMember name value ms

/-- The object of these members; of two with one name the later one stays. -/
def ofMembers (ms : List (String × Json)) : Json :=
  .obj (ms.foldl (fun acc m => insertMember m.1 m.2 acc) [])

def empty : Json := .obj []

def set (j : Json) (name : String) (value : Json) : Json :=
  match j with
  | .obj ms => .obj (insertMember name value ms)
  | v => v

def get? (j : Json) (name : String) : Option Json :=
  match j with
  | .obj ms => ms.lookup name
  | _ => none

def isStr : Json → Bool
  | .str _ => true
  | _ => false

def isInt : Json → Bool
  | .int _ => true
  | _ => false

def isBool : Json → Bool
  | .bool _ => true
  | _ => false

def isObj : Json → Bool
  | .obj _ => true
  | _ => false

def isStrMap : Json → Bool
  | .obj ms => ms.all fun m => m.2.isStr
  | _ => false

def isEmptyObj : Json → Bool
  | .obj [] => true
  | _ => false

def hexDigit (n : Nat) : Char := "0123456789abcdef".toList.getD n '0'

def escapeChar (c : Char) : List Char :=
  match c with
  | '"' => ['\\', '"']
  | '\\' => ['\\', '\\']
  | '\n' => ['\\', 'n']
  | '\r' => ['\\', 'r']
  | '\t' => ['\\', 't']
  | '\x08' => ['\\', 'b']
  | '\x0c' => ['\\', 'f']
  | c =>
    if c.toNat < 0x20 then ['\\', 'u', '0', '0', hexDigit (c.toNat / 16), hexDigit (c.toNat % 16)]
    else [c]

def quote (s : String) : String := .ofList ('"' :: s.toList.flatMap escapeChar ++ ['"'])

def commaJoin : List String → String
  | [] => ""
  | [s] => s
  | s :: ss => s ++ "," ++ commaJoin ss

mutual

def render : Json → String
  | .null => "null"
  | .bool b => if b then "true" else "false"
  | .int n => toString n
  | .float x => Decimal.Style.json.write x
  | .str s => quote s
  | .arr items => "[" ++ commaJoin (renderItems items) ++ "]"
  | .obj members => "\x7b" ++ commaJoin (renderMembers members) ++ "\x7d"

def renderItems : List Json → List String
  | [] => []
  | v :: vs => v.render :: renderItems vs

def renderMembers : List (String × Json) → List String
  | [] => []
  | (n, v) :: ms => (quote n ++ ":" ++ v.render) :: renderMembers ms

end

end Json

end OperatorScaffold

import OperatorScaffold.Json.Value
import OperatorScaffold.Yaml.Plain
/-!
Free YAML values. A record keeps the order of its entries, and any value can be a key; a value may
carry a tag of the application's own.
-/

namespace OperatorScaffold.Yaml

inductive Value where
  | null
  | bool (b : Bool)
  | int (n : Int)
  | float (x : Decimal.Binary64)
  | infinite (negative : Bool)
  | notANumber
  | str (s : String)
  | list (items : List Value)
  | record (entries : List (Value × Value))
  | tagged (tag : String) (value : Value)

namespace Value

mutual

def same : Value → Value → Bool
  | .null, .null => true
  | .bool a, .bool b => a == b
  | .int m, .int n => m == n
  | .float x, .float y => x == y
  | .infinite a, .infinite b => a == b
  | .notANumber, .notANumber => true
  | .str s, .str t => s == t
  | .list vs, .list ws => sameItems vs ws
  | .record es, .record fs => sameEntries es fs
  | .tagged s v, .tagged t w => s == t && same v w
  | _, _ => false

def sameItems : List Value → List Value → Bool
  | [], [] => true
  | v :: vs, w :: ws => same v w && sameItems vs ws
  | _, _ => false

def sameEntries : List (Value × Value) → List (Value × Value) → Bool
  | [], [] => true
  | (k, v) :: es, (l, w) :: fs => same k l && same v w && sameEntries es fs
  | _, _ => false

end

mutual

def ofJson : Json → Value
  | .null => .null
  | .bool b => .bool b
  | .int n => .int n
  | .float x => .float x
  | .str s => .str s
  | .arr items => .list (ofJsonItems items)
  | .obj members => .record (ofJsonMembers members)

def ofJsonItems : List Json → List Value
  | [] => []
  | v :: vs => ofJson v :: ofJsonItems vs

def ofJsonMembers : List (String × Json) → List (Value × Value)
  | [] => []
  | (n, v) :: ms => (.str n, ofJson v) :: ofJsonMembers ms

end

/-- The JSON value of a scalar; JSON has no number that is not finite. -/
def scalarJson? : Value → Option Json
  | .null => some .null
  | .bool b => some (.bool b)
  | .int n => some (.int n)
  | .float x => some (.float x)
  | .infinite _ => some .null
  | .notANumber => some .null
  | .str s => some (.str s)
  | _ => none

end Value

end OperatorScaffold.Yaml

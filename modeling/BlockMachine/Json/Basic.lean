import BlockMachine.Number.Binary64
import BlockMachine.Table

namespace BlockMachine

inductive Json where
  | null
  | bool (b : Bool)
  | int (n : Int)
  | float (x : Binary64)
  | str (s : String)
  | arr (items : List Json)
  | obj (members : List (String × Json))
deriving Inhabited, Repr

namespace Json

def get? (j : Json) (key : String) : Option Json :=
  match j with
  | .obj members => Table.get? members key
  | _ => none

/-- False are null, `false`, zero, and the empty text, list and object. -/
def isTruthy : Json → Bool
  | .null => false
  | .bool b => b
  | .int n => n != 0
  | .float x => !x.isZero
  | .str s => s != ""
  | .arr items => !items.isEmpty
  | .obj members => !members.isEmpty

def isNull : Json → Bool
  | .null => true
  | _ => false

def ofText? : Option String → Json
  | some s => .str s
  | none => .null

end Json
end BlockMachine

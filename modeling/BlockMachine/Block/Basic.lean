import BlockMachine.Json.Display

namespace BlockMachine

/-- What an author can put into a field. -/
inductive FieldValue where
  | text (s : String)
  | int (n : Int)
  | float (x : Binary64)
  | bool (b : Bool)
deriving DecidableEq, Repr

def FieldValue.display : FieldValue → String
  | .text s => s
  | .int n => decimalText n
  | .float x => x.display
  | .bool b => shownBool b

def FieldValue.toJson : FieldValue → Json
  | .text s => .str s
  | .int n => .int n
  | .float x => .float x
  | .bool b => .bool b

/-- What a message says about a block. -/
structure Site where
  id : Option String
  kind : String
deriving DecidableEq, Repr

namespace Site

/-- The kind, with the id behind it if there is one. -/
def describe (s : Site) : String :=
  match s.id with
  | some id => if id = "" then s.kind else s.kind ++ "#" ++ id
  | none => s.kind

def idText (s : Site) : String := s.id.getD "None"

end Site

/-- All that a block has of its own. The shadow mark and the position belong to the editor; the
extra state counts the sockets of blocks that can grow. -/
structure Label where
  kind : String
  id : Option String := none
  fields : Table FieldValue := []
  extraState : Option (Table Json) := none
  shadow : Bool := false
  x : Option Binary64 := none
  y : Option Binary64 := none
deriving Repr

def Label.site (l : Label) : Site := ⟨l.id, l.kind⟩

/-- A block with its sockets; `ρ` is how another block is referred to. -/
structure Block (ρ : Type) extends Label where
  values : Table (Option ρ) := []
  statements : Table (Option ρ) := []
  next : Option ρ := none

namespace Block

variable {ρ : Type}

def value? (b : Block ρ) (socket : String) : Option ρ := (Table.get? b.values socket).join

def head? (b : Block ρ) (socket : String) : Option ρ := (Table.get? b.statements socket).join

def sockets (b : Block ρ) : List String := Table.keys b.values ++ Table.keys b.statements

end Block
end BlockMachine

import BlockMachine.Fault
import BlockMachine.Script.Identifier
import BlockMachine.Script.Precedence

namespace BlockMachine

/-- Texts of declarations under their identifiers. The table is handed out once. -/
structure Definitions where
  entries : Table String := []
  drained : Bool := false
deriving DecidableEq, Repr

namespace Definitions

/-- The text of a name, in place of an earlier one. -/
def register (d : Definitions) (name text : String) : Definitions :=
  { d with entries := Table.put d.entries (identifier name) text }

def reserve (d : Definitions) (name text : String) : Definitions :=
  { d with entries := Table.reserve d.entries (identifier name) text }

def contains (d : Definitions) (name : String) : Bool :=
  Table.contains d.entries (identifier name)

/-- A call of a function that may be declared later. -/
def call (name arguments : String) : Expression :=
  ⟨identifier name ++ "(" ++ arguments ++ ")", .functionCall⟩

/-- All entries, and the table marked as handed out. -/
def drain (d : Definitions) : Except Fault (Table String × Definitions) :=
  if d.drained then .error (.defect .alreadyDrained)
  else .ok (d.entries, { d with drained := true })

end Definitions
end BlockMachine

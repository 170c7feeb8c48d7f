import BlockMachine.Table
import BlockMachine.Text.Blank
import BlockMachine.Text.Digit

namespace BlockMachine.Catalog

def rootKind : String := "ai_definition"

def stateKind : String := "fsm_state"

def localTransitionKind : String := "fsm_transition"

def tacticalTransitionKind : String := "fsm_tactical_transition"

def emergencyTransitionKind : String := "fsm_emergency_transition"

def stateReferenceKind : String := "state_reference"

def stateReferenceStatementKind : String := "state_reference_statement"

def returnStateKind : String := "fsm_return_state"

def textKind : String := "text"

def branchKind : String := "controls_if"

/-- Kinds that may stand at the top of a workspace beside the program root. -/
def definitionKinds : List String := ["custom_function_define", "custom_constant_define"]

def statementSockets : Table (List String) :=
  [(rootKind, ["GLOBAL_TRANSITIONS", "STATES"]),
    (stateKind, ["ON_ENTER", "ON_EXECUTE", "ON_EXIT", "TRANSITIONS", "INTERRUPTIBLE_BY"]),
    ("action_sequence", ["DO"]),
    ("local_scope", ["VARIABLES", "BODY"])]

/-- The digits behind `stem` in the name of a numbered socket. The name may end with one line
feed. -/
def socketDigits? (stem socket : String) : Option (List Nat) :=
  if stem.toList.isPrefixOf socket.toList then
    Text.digits? (Text.dropFinal '\n' (socket.toList.drop stem.length))
  else none

def isBranchSocket (socket : String) : Bool :=
  (socketDigits? "DO" socket).isSome || Text.dropFinal '\n' socket.toList == "ELSE".toList

/-- Whether a socket of a kind holds a stack of statements. -/
def isStatementSocket (kind socket : String) : Bool :=
  ((Table.get? statementSockets kind).getD []).contains socket ||
    (kind == branchKind && isBranchSocket socket)

end BlockMachine.Catalog

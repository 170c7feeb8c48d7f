import BlockMachine.Compiler.Assembly
import BlockMachine.Workspace.Reader

namespace BlockMachine

def compileDocument (document : Json) : Outcome Program :=
  match Workspace.read document with
  | .ok w => w.compile
  | .error f => ⟨.error f, []⟩

def valueKinds : List String := (Table.keys ValueRule.table).mergeSort (· ≤ ·)

def statementKinds : List String := (Table.keys StatementRule.table).mergeSort (· ≤ ·)

end BlockMachine

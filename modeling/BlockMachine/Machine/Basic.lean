import BlockMachine.Script.Precedence
import BlockMachine.Table

namespace BlockMachine

/-- Where a transition belongs: to one state, or to all of them. -/
inductive Tier where
  | ofState
  | tactical
  | emergency
deriving DecidableEq, Repr

structure Transition where
  target : String
  condition : Expression
  description : String := ""
  tier : Tier := .ofState
deriving DecidableEq, Repr

/-- A state with the code of its handlers. -/
structure State where
  name : String
  onEnter : String := ""
  onExecute : String := ""
  onExit : String := ""
  transitions : List Transition := []
  interruptibleBy : Option (List String) := none
deriving DecidableEq, Repr

structure Program where
  definitions : Table String := []
  initialState : String
  states : Table State := []
  tactical : List Transition := []
  emergency : List Transition := []
deriving DecidableEq, Repr

end BlockMachine

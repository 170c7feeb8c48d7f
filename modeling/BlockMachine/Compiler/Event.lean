import BlockMachine.Block.Basic

namespace BlockMachine

inductive Level where
  | debug
  | info
  | warning
  | error
deriving DecidableEq, Repr

def Level.text : Level → String
  | .debug => "DEBUG"
  | .info => "INFO"
  | .warning => "WARNING"
  | .error => "ERROR"

structure LogLine where
  level : Level
  text : String
deriving DecidableEq, Repr

def LogLine.render (l : LogLine) : String := l.level.text ++ " " ++ l.text

inductive Event where
  | strayBlock (site : Site)
  | compilingState (name : String) (site : Site)
  | skippedAfterReturn (count : Nat) (site : Site)
  | duplicateState (name : String) (site : Site)
  | compiledProgram (site : Site) (states tactical emergency definitions : Nat)
deriving DecidableEq, Repr

def Event.line : Event → LogLine
  | .strayBlock s => ⟨.debug, "Ignoring stray top-level block " ++ s.describe⟩
  | .compilingState name s =>
    ⟨.debug, "Compiling state " ++ name ++ " (" ++ s.describe ++ ")"⟩
  | .skippedAfterReturn count s =>
    ⟨.warning, "Skipping " ++ decimalText count ++ " block(s) after return in " ++ s.describe⟩
  | .duplicateState name s =>
    ⟨.warning, "Duplicate state name '" ++ name ++ "' at " ++ s.describe⟩
  | .compiledProgram s states tactical emergency definitions =>
    ⟨.info, "Compiled program " ++ s.describe ++ ": " ++ decimalText states ++ " states, " ++
      decimalText tactical ++ " tactical, " ++ decimalText emergency ++ " emergency, " ++
      decimalText definitions ++ " definitions"⟩

end BlockMachine

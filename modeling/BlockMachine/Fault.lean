import BlockMachine.Block.Basic
import BlockMachine.Block.Catalog

namespace BlockMachine

/-- The saved workspace is not in the editor's format. Ids and kinds are as they were saved. -/
inductive FormatFault where
  | notAnObject
  | sectionNotAnObject
  | blocksNotAList
  | untypedBlock (raw : Json)
  | malformedInputs (id kind : Json)
  | malformedConnection (id kind : Json)
  /-- What the message says behind the id and the kind is not modelled. -/
  | malformedBlock (id kind : Json)
  | noRoot
  | severalRoots (ids : List (Option String))

/-- The place in a program for which a block was looked up. -/
inductive Role where
  | value
  | statement
  | state
  | localTransition
  | interruption
  | programRoot
deriving DecidableEq, Repr

def Role.text : Role → String
  | .value => "value"
  | .statement => "statement"
  | .state => "state"
  | .localTransition => "local transition"
  | .interruption => "interruption reference"
  | .programRoot => "program root"

/-- A block cannot be compiled. -/
inductive RuleFault where
  | unknownKind (role : Role) (site : Site)
  | cycle (site : Site)
  | missingField (field : String) (site : Site)
  | notGlobal (site : Site)
  | invalidCount (key : String) (count : Json) (site : Site)
  | invalidNumber (numeral : String) (site : Site)
  | unknownComparison (name : String) (site : Site)
  | unknownConnective (name : String) (site : Site)
  | unknownArithmetic (name : String) (site : Site)
  | unknownCoordinate (name : String) (site : Site)
  | notAStateName (wrapper site : Site)

/-- A failure that names no block. -/
inductive Defect where
  /-- An integer beyond the range of numbers. -/
  | numberTooLarge
  /-- A kind that is a list or an object cannot be looked up in the catalog. -/
  | unsearchableKind
  /-- An integer of more digits than are read. -/
  | numeralTooLong
  | alreadyDrained
  /-- Nesting beyond the bound of the diagram. -/
  | tooDeep
deriving DecidableEq, Repr

inductive Fault where
  | format (f : FormatFault)
  | rule (f : RuleFault)
  | defect (d : Defect)

/-- What the author is told: the words, and the id and kind of the block. -/
structure Report where
  message : String
  id : Json
  kind : Json

namespace FormatFault

open Catalog (rootKind)

def message : FormatFault → String
  | .notAnObject => "Workspace must be a JSON object"
  | .sectionNotAnObject => "'blocks' must be an object"
  | .blocksNotAList => "'blocks.blocks' must be a list"
  | .untypedBlock raw => "Block without a type: " ++ raw.shown
  | .malformedInputs id _ => "Malformed inputs on block " ++ id.display
  | .malformedConnection id _ => "Malformed connection on block " ++ id.display
  | .malformedBlock id kind => "Malformed block " ++ id.display ++ " (" ++ kind.display ++ ")"
  | .noRoot => "Workspace has no '" ++ rootKind ++ "' block"
  | .severalRoots ids =>
    "Workspace has " ++ decimalText ids.length ++ " '" ++ rootKind ++ "' blocks (" ++
      ", ".intercalate (ids.map (·.getD "None")) ++ ")"

def report : FormatFault → Report
  | .malformedInputs id kind => ⟨message (.malformedInputs id kind), id, kind⟩
  | .malformedConnection id kind => ⟨message (.malformedConnection id kind), id, kind⟩
  | .malformedBlock id kind => ⟨message (.malformedBlock id kind), id, .str kind.display⟩
  | .noRoot => ⟨message .noRoot, .null, .str rootKind⟩
  | .severalRoots ids => ⟨message (.severalRoots ids), .ofText? (ids[1]?).join, .str rootKind⟩
  | f => ⟨f.message, .null, .null⟩

end FormatFault

namespace RuleFault

def site : RuleFault → Site
  | .unknownKind _ s | .cycle s | .missingField _ s | .notGlobal s | .invalidCount _ _ s
  | .invalidNumber _ s | .unknownComparison _ s | .unknownConnective _ s
  | .unknownArithmetic _ s | .unknownCoordinate _ s | .notAStateName _ s => s

def message : RuleFault → String
  | .unknownKind role s =>
    "No " ++ role.text ++ " rule for block kind '" ++ s.kind ++ "' (block " ++ s.idText ++ ")"
  | .cycle s => "Cycle detected at block " ++ s.idText ++ " (" ++ s.kind ++ ")"
  | .missingField field s =>
    "Block " ++ s.idText ++ " (" ++ s.kind ++ ") is missing required field '" ++ field ++ "'"
  | .notGlobal s =>
    "Block " ++ s.idText ++ " (" ++ s.kind ++ ") is not a tactical or emergency transition"
  | .invalidCount key count s =>
    "Invalid " ++ key ++ " " ++ count.shown ++ " on " ++ s.describe
  | .invalidNumber numeral _ => "Invalid number '" ++ numeral ++ "'"
  | .unknownComparison name _ => "Unknown comparison '" ++ name ++ "'"
  | .unknownConnective name _ => "Unknown logic operator '" ++ name ++ "'"
  | .unknownArithmetic name _ => "Unknown arithmetic '" ++ name ++ "'"
  | .unknownCoordinate name _ => "Unknown coordinate '" ++ name ++ "'"
  | .notAStateName wrapper s =>
    "Interruption reference " ++ wrapper.describe ++ " must hold a state name, got '" ++ s.kind ++
      "'"

def report (f : RuleFault) : Report := ⟨f.message, .ofText? f.site.id, .str f.site.kind⟩

end RuleFault

def Defect.message : Defect → String
  | .numberTooLarge => "Number too large"
  | .unsearchableKind => "Kind cannot be looked up"
  | .numeralTooLong => "Numeral too long"
  | .alreadyDrained => "Definition table already drained"
  | .tooDeep => "Blocks nested too deeply"

namespace Fault

/-- Faults of the author's program are reported, defects are not. -/
def report? : Fault → Option Report
  | .format f => some f.report
  | .rule f => some f.report
  | .defect _ => none

def message : Fault → String
  | .format f => f.message
  | .rule f => f.message
  | .defect d => d.message

end Fault
end BlockMachine

import BlockMachine.Machine.Basic
import BlockMachine.Script.Fragment
import BlockMachine.Text.Lines
import BlockMachine.Text.Quoted

namespace BlockMachine

namespace Script

def enterParameters : String := "api, readOnlyMemory, context"

def executeParameters : String := "api, readOnlyMemory, events, context"

def exitParameters : String := "api, readOnlyMemory"

def localConditionParameters : String := "api, readOnlyMemory, context"

def globalConditionParameters : String := "api, readOnlyMemory, context, events"

/-- Entries one below the other between two brackets. -/
def braced (entries : List String) : String :=
  "\x7b\n" ++ indented (",\n".intercalate entries) ++ "\n\x7d"

/-- An array of records, each on lines of its own. -/
def array (records : List String) : String :=
  let body := Fragment.joinRecords records
  if body = "" then "[]" else "[\n" ++ indented body ++ "\n]"

def terminated (code : String) : String :=
  if code.toList.getLast? = some '\n' then code else code ++ "\n"

def handler (parameters body : String) : String :=
  if allBlank body then "function(" ++ parameters ++ ") \x7b\x7d"
  else "function(" ++ parameters ++ ") \x7b\n" ++ indented (terminated body) ++ "\x7d"

def condition (parameters text : String) : String :=
  "function (" ++ parameters ++ ") \x7b\n" ++ indented ("return (" ++ text ++ ");") ++ "\n\x7d"

end Script

open Script

def Transition.script (t : Transition) : String :=
  let parameters :=
    if t.tier = .ofState then localConditionParameters else globalConditionParameters
  braced
    (["target: " ++ quoted t.target, "condition: " ++ Script.condition parameters t.condition.text]
      ++ (if t.tier = .ofState then [] else ["description: " ++ quoted t.description])
      ++ (if t.tier = .emergency then ["isEmergency: true"] else []))

def interruptionScript : Option (List String) → String
  | none => "null"
  | some names => "[" ++ ", ".intercalate (names.map quoted) ++ "]"

def State.script (s : State) : String :=
  braced
    ["onEnter: " ++ handler enterParameters s.onEnter,
      "onExecute: " ++ handler executeParameters s.onExecute,
      "onExit: " ++ handler exitParameters s.onExit,
      "interruptibleBy: " ++ interruptionScript s.interruptibleBy,
      "transitions: " ++ array (s.transitions.map Transition.script)]

def statesScript (states : Table State) : String :=
  if states.isEmpty then "\x7b\x7d"
  else braced (states.map fun (name, s) => quoted name ++ ": " ++ s.script)

/-- The whole script; equal machines have equal scripts. -/
def Program.script (p : Program) : String :=
  let body := "return " ++
    braced
      ["initialState: " ++ quoted p.initialState,
        "states: " ++ statesScript p.states,
        "tacticalTransitions: " ++ array (p.tactical.map Transition.script),
        "emergencyTransitions: " ++ array (p.emergency.map Transition.script)] ++ ";"
  "\n\n".intercalate (p.definitions.map Prod.snd ++ [body]) ++ "\n"

end BlockMachine

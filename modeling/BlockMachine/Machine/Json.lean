import BlockMachine.Json.Number
import BlockMachine.Machine.Basic

namespace BlockMachine

def Tier.text : Tier → String
  | .ofState => "local"
  | .tactical => "tactical"
  | .emergency => "emergency"

def Order.level (o : Order) : Binary64 := .ofRatio false o.tenths 10

def Expression.toJson (e : Expression) : Json :=
  .obj [("text", .str e.text), ("order", .float e.order.level)]

def Transition.toJson (t : Transition) : Json :=
  .obj [("target", .str t.target), ("condition", t.condition.toJson),
    ("description", .str t.description), ("tier", .str t.tier.text)]

def State.toJson (s : State) : Json :=
  .obj [("name", .str s.name), ("onEnter", .str s.onEnter), ("onExecute", .str s.onExecute),
    ("onExit", .str s.onExit), ("transitions", .arr (s.transitions.map Transition.toJson)),
    ("interruptibleBy", match s.interruptibleBy with
      | some names => .arr (names.map .str)
      | none => .null)]

def Program.toJson (p : Program) : Json :=
  .obj [("definitions", .obj (p.definitions.map fun (k, text) => (k, .str text))),
    ("initialState", .str p.initialState),
    ("states", .obj (p.states.map fun (k, s) => (k, s.toJson))),
    ("tacticalTransitions", .arr (p.tactical.map Transition.toJson)),
    ("emergencyTransitions", .arr (p.emergency.map Transition.toJson))]

namespace Json

variable {α : Type}

def text? : Json → Option String
  | .str s => some s
  | _ => none

def list? (item? : Json → Option α) : Json → Option (List α)
  | .arr items => items.mapM item?
  | _ => none

def table? (item? : Json → Option α) : Json → Option (Table α)
  | .obj members => members.mapM fun (k, j) => (item? j).map (k, ·)
  | _ => none

/-- The member under the first of some keys that is there. -/
def anyOf? (j : Json) (keys : List String) : Option Json := keys.findSome? j.get?

/-- A member that has to be there, under any of its keys. -/
def required (read? : Json → Option α) (j : Json) (keys : List String) : Option α :=
  (j.anyOf? keys).bind read?

/-- A member that may be absent, under any of its keys. -/
def optional (read? : Json → Option α) (default : α) (j : Json) (keys : List String) : Option α :=
  match j.anyOf? keys with
  | some m => read? m
  | none => some default

end Json

def Tier.ofJson? : Json → Option Tier
  | .str s => [Tier.ofState, .tactical, .emergency].find? (·.text == s)
  | _ => none

/-- A negative zero is a zero here. -/
def Order.ofJson? (j : Json) : Option Order :=
  j.number?.bind fun x => Order.all.find? fun o => o.level == x || (o.level.isZero && x.isZero)

def Expression.ofJson? (j : Json) : Option Expression := do
  let text ← j.required Json.text? ["text"]
  let order ← j.optional Order.ofJson? .atomic ["order"]
  return { text, order }

def Transition.ofJson? (j : Json) : Option Transition := do
  let target ← j.required Json.text? ["target"]
  let condition ← j.required Expression.ofJson? ["condition"]
  let description ← j.optional Json.text? "" ["description"]
  let tier ← j.optional Tier.ofJson? .ofState ["tier"]
  return { target, condition, description, tier }

def interruptions? : Json → Option (Option (List String))
  | .null => some none
  | j => (j.list? Json.text?).map some

def State.ofJson? (j : Json) : Option State := do
  let name ← j.required Json.text? ["name"]
  let onEnter ← j.optional Json.text? "" ["onEnter", "on_enter"]
  let onExecute ← j.optional Json.text? "" ["onExecute", "on_execute"]
  let onExit ← j.optional Json.text? "" ["onExit", "on_exit"]
  let transitions ← j.optional (Json.list? Transition.ofJson?) [] ["transitions"]
  let interruptibleBy ← j.optional interruptions? none ["interruptibleBy", "interruptible_by"]
  return { name, onEnter, onExecute, onExit, transitions, interruptibleBy }

def Program.ofJson? (j : Json) : Option Program := do
  let definitions ← j.optional (Json.table? Json.text?) [] ["definitions"]
  let initialState ← j.required Json.text? ["initialState", "initial_state"]
  let states ← j.optional (Json.table? State.ofJson?) [] ["states"]
  let tactical ← j.optional (Json.list? Transition.ofJson?) []
    ["tacticalTransitions", "tactical_transitions"]
  let emergency ← j.optional (Json.list? Transition.ofJson?) []
    ["emergencyTransitions", "emergency_transitions"]
  return { definitions, initialState, states, tactical, emergency }

end BlockMachine

import BlockMachine.Block.Diagram
import BlockMachine.Compiler.Definitions
import BlockMachine.Compiler.Event

namespace BlockMachine

/-- Definitions so far, blocks being compiled with the innermost first, and events so far. -/
structure Context (ρ : Type) where
  definitions : Definitions := {}
  active : List ρ := []
  events : List Event := []

abbrev Compile (ρ α : Type) := EStateM Fault (Context ρ) α

namespace Compile

variable {ρ α : Type}

def lift (x : Except Fault α) : Compile ρ α :=
  match x with
  | .ok a => pure a
  | .error f => throw f

def fail (f : Fault) : Compile ρ α := throw f

def log (e : Event) : Compile ρ Unit :=
  modify fun c => { c with events := c.events ++ [e] }

def register (name text : String) : Compile ρ Unit :=
  modify fun c => { c with definitions := c.definitions.register name text }

def reserve (name text : String) : Compile ρ Unit :=
  modify fun c => { c with definitions := c.definitions.reserve name text }

def drain : Compile ρ (Table String) := do
  let (entries, definitions) ← lift (← get).definitions.drain
  modify fun c => { c with definitions }
  return entries

def leave (c : Context ρ) : Context ρ := { c with active := c.active.tail }

/-- Run a step inside a block, which must not be one of those being compiled already. The block is
left again whether the step succeeds or fails. -/
def visiting (d : Diagram ρ) (r : ρ) (step : Compile ρ α) : Compile ρ α := fun c =>
  if d.seen r c.active then .error (.rule (.cycle (d.site r))) c
  else
    match step { c with active := r :: c.active } with
    | .ok a c => .ok a (leave c)
    | .error f c => .error f (leave c)

end Compile

/-- Which blocks may be compiled inside each other, and what is raised otherwise. -/
structure Watch (ρ : Type) where
  allows : List ρ → Bool
  alarm : Fault

namespace Watch

variable {ρ α : Type}

def idle : Watch ρ := ⟨fun _ => true, .defect .tooDeep⟩

/-- Run a step if the blocks being compiled are allowed. -/
def guarded (w : Watch ρ) (step : Compile ρ α) : Compile ρ α := fun c =>
  if w.allows c.active then step c else .error w.alarm c

/-- Run a step inside a block. The watch looks at the blocks being compiled, this one among them. -/
def visiting (w : Watch ρ) (d : Diagram ρ) (r : ρ) (step : Compile ρ α) : Compile ρ α :=
  Compile.visiting d r (w.guarded step)

end Watch
end BlockMachine

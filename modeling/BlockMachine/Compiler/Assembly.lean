import BlockMachine.Compiler.Statement
import BlockMachine.Block.Tree

namespace BlockMachine

namespace Diagram

variable {ρ : Type}

/-- The state name in a wrapper; an empty wrapper names the empty one. -/
def wrappedName (d : Diagram ρ) (wrapper : Block ρ) : Except Fault String :=
  match wrapper.value? "STATE" with
  | none => .ok ""
  | some r =>
    let inner := d.block r
    if inner.kind = Catalog.stateReferenceKind then inner.fieldText "STATE_NAME"
    else if inner.kind = Catalog.textKind then .ok (inner.fieldTextD "TEXT" "")
    else .error (.rule (.notAStateName wrapper.site inner.site))

/-- The state name that one block of an interruption stack gives, bare or in a wrapper. -/
def interruption (d : Diagram ρ) (b : Block ρ) : Except Fault String :=
  if b.kind = Catalog.stateReferenceKind then b.fieldText "STATE_NAME"
  else if b.kind = Catalog.stateReferenceStatementKind then d.wrappedName b
  else .error (.rule (.unknownKind .interruption b.site))

/-- The states that may interrupt a state; without any entry there is no list. -/
def interruptibleBy (d : Diagram ρ) (b : Block ρ) : Except Fault (Option (List String)) := do
  let names ← (← d.stack (b.head? "INTERRUPTIBLE_BY")).mapM fun r => d.interruption (d.block r)
  return (if names.isEmpty then none else some names)

end Diagram

namespace Generator

variable {ρ : Type}

def globalTransition (g : Generator ρ) (b : Block ρ) (tier : Tier) : Compile ρ Transition := do
  let target ← Compile.lift (b.fieldText "TARGET")
  let condition ← g.condition b "() => false"
  return { target, condition, description := b.fieldTextD "DESCRIPTION" "", tier }

def globalTier? (kind : String) : Option Tier :=
  if kind = Catalog.tacticalTransitionKind then some .tactical
  else if kind = Catalog.emergencyTransitionKind then some .emergency
  else none

/-- Only definitions count beside the root; other blocks are passed over. -/
def preambleBlock (g : Generator ρ) (r : ρ) : Compile ρ Unit := do
  let b := g.diagram.block r
  if Catalog.definitionKinds.contains b.kind then
    let _ ← g.statement r
  else Compile.log (.strayBlock b.site)

def preamble (g : Generator ρ) : List ρ → Compile ρ Unit
  | [] => pure ()
  | top :: rest => do
    (← Compile.lift (g.diagram.stack (some top))).forM g.preambleBlock
    g.preamble rest

def globalBlock (g : Generator ρ) (r : ρ) : Compile ρ Transition := do
  let b := g.diagram.block r
  match globalTier? b.kind with
  | none => Compile.fail (.rule (.notGlobal b.site))
  | some tier => g.globalTransition b tier

end Generator

namespace Watch

variable {ρ : Type} (w : Watch ρ)

/-- One state with its handlers and transitions. -/
def state (g : Generator ρ) (b : Block ρ) : Compile ρ State := do
  if b.kind ≠ Catalog.stateKind then Compile.fail (.rule (.unknownKind .state b.site))
  let name ← Compile.lift (b.fieldText "STATE_NAME")
  Compile.log (.compilingState name b.site)
  let onEnter ← g.sequence (b.head? "ON_ENTER")
  let onExecute ← g.sequence (b.head? "ON_EXECUTE")
  let onExit ← g.sequence (b.head? "ON_EXIT")
  let transitions ← w.collect g (b.head? "TRANSITIONS") g.localTransition
  let interruptibleBy ← Compile.lift (g.diagram.interruptibleBy b)
  return { name, onEnter, onExecute, onExit, transitions, interruptibleBy }

/-- States by name: a name keeps its first slot, and its last state counts. -/
def statesFrom (g : Generator ρ) (states : Table State) : List ρ → Compile ρ (Table State)
  | [] => return states
  | r :: rest => do
    let b := g.diagram.block r
    let state ← w.state g b
    if Table.contains states state.name then Compile.log (.duplicateState state.name b.site)
    statesFrom g (Table.put states state.name state) rest

/-- A program from its root and the stacks that lie beside it. -/
def program (g : Generator ρ) (root : ρ) (beside : List ρ) : Compile ρ Program := do
  let b := g.diagram.block root
  if b.kind ≠ Catalog.rootKind then Compile.fail (.rule (.unknownKind .programRoot b.site))
  g.preamble beside
  let initialState ← Compile.lift (b.fieldText "INITIAL_STATE")
  let states ← w.statesFrom g [] (← Compile.lift (g.diagram.stack (b.head? "STATES")))
  let transitions ←
    (← Compile.lift (g.diagram.stack (b.head? "GLOBAL_TRANSITIONS"))).mapM g.globalBlock
  let tactical := transitions.filter (·.tier = .tactical)
  let emergency := transitions.filter (·.tier = .emergency)
  let definitions ← Compile.drain
  Compile.log (.compiledProgram b.site states.length tactical.length emergency.length
    definitions.length)
  return { definitions, initialState, states, tactical, emergency }

end Watch

namespace Generator

variable {ρ : Type} (g : Generator ρ)

def state (b : Block ρ) : Compile ρ State := Watch.idle.state g b

def statesFrom (states : Table State) (rs : List ρ) : Compile ρ (Table State) :=
  Watch.idle.statesFrom g states rs

def program (root : ρ) (beside : List ρ) : Compile ρ Program := Watch.idle.program g root beside

end Generator

/-- What a compilation came to, and what was said on the way. -/
structure Outcome (α : Type) where
  result : Except Fault α
  events : List Event

def Compile.start {ρ α : Type} (x : Compile ρ α) : Outcome α :=
  match x {} with
  | .ok a c => ⟨.ok a, c.events⟩
  | .error f c => ⟨.error f, c.events⟩

namespace Diagram

variable {ρ : Type}

/-- Compile the program of a root and of the stacks beside it. -/
def compile (d : Diagram ρ) (root : ρ) (beside : List ρ) : Outcome Program :=
  (d.generator.program root beside).start

def isRoot (d : Diagram ρ) (r : ρ) : Bool := (d.block r).kind == Catalog.rootKind

def root (d : Diagram ρ) (tops : List ρ) : Except Fault ρ :=
  match tops.filter d.isRoot with
  | [] => .error (.format .noRoot)
  | [r] => .ok r
  | rs => .error (.format (.severalRoots (rs.map fun r => (d.block r).id)))

/-- Compile the program that lies among some stacks. -/
def compileAll (d : Diagram ρ) (tops : List ρ) : Outcome Program :=
  match d.root tops with
  | .ok r => d.compile r (tops.filter (!d.isRoot ·))
  | .error f => ⟨.error f, []⟩

end Diagram

def Workspace.compile (w : Workspace) : Outcome Program := w.diagram.compileAll w.blocks

end BlockMachine

import BlockMachine.Compiler.Context
import BlockMachine.Compiler.Value
import BlockMachine.Machine.Script

namespace BlockMachine

/-- How single blocks of a diagram are compiled, as values and as statements. -/
structure Generator (ρ : Type) where
  diagram : Diagram ρ
  expression : ρ → Compile ρ Expression
  statement : ρ → Compile ρ String

namespace Generator

variable {ρ α : Type}

/-- The block in a value socket, as it stands in a context of the given order. -/
def value (g : Generator ρ) (child : Option ρ) (context : Order) (default : String) :
    Compile ρ Expression :=
  match child with
  | none => return ⟨default, .atomic⟩
  | some r => return (← g.expression r).within context

/-- The text of a block, its parts from left to right. -/
def expand (g : Generator ρ) (b : Block ρ) : List Part → Compile ρ String
  | [] => return ""
  | .text s :: parts => return s ++ (← g.expand b parts)
  | .slot socket context default :: parts => do
    let e ← g.value (b.value? socket) context default
    return e.text ++ (← g.expand b parts)
  | .fail f :: _ => Compile.fail f

def fill (g : Generator ρ) (b : Block ρ) (t : Template) : Compile ρ Expression := do
  match t.reserves with
  | some (name, text) => Compile.reserve name text
  | none => pure ()
  return ⟨← g.expand b t.parts, t.order⟩

/-- The steps of a stack of statements, one fragment a block. -/
def fragments (g : Generator ρ) (top : Option ρ) : Compile ρ (List String) := do
  (← Compile.lift (g.diagram.stack top)).mapM g.statement

/-- A stack of statements that run one after the other. -/
def sequence (g : Generator ρ) (top : Option ρ) : Compile ρ String :=
  return String.join (((← g.fragments top).filter (· != "")).map Fragment.closeScope)

/-- A stack of statements that are the records of an array. -/
def records (g : Generator ρ) (top : Option ρ) : Compile ρ String :=
  return Fragment.joinRecords (← g.fragments top)

/-- The condition of a transition stands alone, so it never needs parentheses of its own. -/
def condition (g : Generator ρ) (b : Block ρ) (default : String) : Compile ρ Expression :=
  g.value (b.value? "CONDITION") .atomic default

def localTransition (g : Generator ρ) (b : Block ρ) : Compile ρ Transition := do
  if b.kind ≠ Catalog.localTransitionKind then
    Compile.fail (.rule (.unknownKind .localTransition b.site))
  let target ← Compile.lift (b.fieldText "TARGET")
  let condition ← g.condition b "false"
  return { target, condition }

end Generator

/-- One value for each block of a stack, built while the block is visited. -/
def Watch.collect {ρ α : Type} (w : Watch ρ) (g : Generator ρ) (top : Option ρ)
    (build : Block ρ → Compile ρ α) : Compile ρ (List α) := do
  (← Compile.lift (g.diagram.stack top)).mapM fun r =>
    w.visiting g.diagram r (build (g.diagram.block r))

def Generator.collect {ρ α : Type} (g : Generator ρ) (top : Option ρ)
    (build : Block ρ → Compile ρ α) : Compile ρ (List α) :=
  Watch.idle.collect g top build

end BlockMachine

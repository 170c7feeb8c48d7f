import BlockMachine.Compiler.Generator

namespace BlockMachine

inductive StatementRule where
  | inline (parts : List Part)
  | actionSequence
  | setMemory
  | branches
  | scope
  | declareVariable
  | setVariable
  | returnState
  | defineConstant
  | defineFunction
  | transition

namespace StatementRule

variable {ρ : Type}

/-- The steps up to the first return: the awaited fragments, and the return if there is one. -/
def steps (g : Generator ρ) (site : Site) : List ρ → Compile ρ (List String × String)
  | [] => return ([], "")
  | r :: rest => do
    let fragment ← g.statement r
    if (g.diagram.block r).kind = Catalog.returnStateKind then
      if !rest.isEmpty then Compile.log (.skippedAfterReturn rest.length site)
      return ([], fragment)
    else
      let (lines, exit) ← steps g site rest
      return (if allBlank fragment then lines else Fragment.awaited fragment :: lines, exit)

/-- Handlers are synchronous, so the steps run in an asynchronous function of their own, and the
return that ends them stands behind it. -/
def actionSequence.run (g : Generator ρ) (b : Block ρ) : Compile ρ String := do
  let (lines, exit) ← steps g b.site (← Compile.lift (g.diagram.stack (b.head? "DO")))
  return (if lines.isEmpty then exit
    else "(async () => \x7b\n" ++ indented (String.join lines) ++ "\x7d)();\n" ++ exit)

def setMemory.run (g : Generator ρ) (b : Block ρ) : Compile ρ String := do
  let key ← Compile.lift (b.fieldText "KEY")
  let value ← g.value (b.value? "VALUE") .none "null"
  return "api.updateMemory(\x7b [" ++ quoted key ++ "]: " ++ value.text ++ " \x7d);\n"

/-- The digits in the name of a branch socket. -/
def branchDigits? (socket : String) : Option (List Nat) :=
  (Catalog.socketDigits? "IF" socket).or (Catalog.socketDigits? "DO" socket)

/-- Insertion into an increasing list without repetition. -/
def insertIndex (i : Nat) : List Nat → List Nat
  | [] => [i]
  | j :: js => if i < j then i :: j :: js else if i = j then j :: js else j :: insertIndex i js

/-- The numbers of the branches, increasing: those that the extra state counts and those of numbered
sockets. -/
def branchIndices (b : Block ρ) : Except Fault (List Nat) := do
  let count ← b.count "elseIfCount"
  let numbers ← (b.sockets.filterMap branchDigits?).mapM Block.socketNumber
  return numbers.foldl (fun is i => insertIndex i is) (List.range (count + 1))

def branch (g : Generator ρ) (b : Block ρ) (i : Nat) : Compile ρ String := do
  let condition ← g.value (b.value? ("IF" ++ decimalText i)) .none "false"
  let body ← g.sequence (b.head? ("DO" ++ decimalText i))
  return "if (" ++ condition.text ++ ") \x7b\n" ++ indented body ++ "\x7d"

def hasElse (b : Block ρ) : Bool :=
  (match b.state? "hasElse" with
    | some (.bool v) => v
    | _ => false) || (b.head? "ELSE").isSome

def branches.run (g : Generator ρ) (b : Block ρ) : Compile ρ String := do
  let cases ← (← Compile.lift (branchIndices b)).mapM (branch g b)
  let code := " else ".intercalate cases
  if hasElse b then
    let body ← g.sequence (b.head? "ELSE")
    return code ++ " else \x7b\n" ++ indented body ++ "\x7d\n"
  else return code ++ "\n"

/-- Variables and body share one block. -/
def scope.run (g : Generator ρ) (b : Block ρ) : Compile ρ String := do
  let declared ← g.sequence (b.head? "VARIABLES")
  let body ← g.sequence (b.head? "BODY")
  return (if declared = "" ∧ body = "" then ""
    else "\x7b\n" ++ indented (declared ++ body) ++ "\x7d\n")

def declareVariable.run (g : Generator ρ) (b : Block ρ) : Compile ρ String := do
  let name ← Compile.lift (b.fieldText "VAR_NAME")
  let value ← g.value (b.value? "INITIAL_VALUE") .assignment "0"
  return "let " ++ identifier name ++ " = " ++ value.text ++ ";\n"

def setVariable.run (g : Generator ρ) (b : Block ρ) : Compile ρ String := do
  let name ← Compile.lift (b.fieldText "VAR_NAME")
  let value ← g.value (b.value? "VALUE") .assignment "0"
  return identifier name ++ " = " ++ value.text ++ ";\n"

def returnState.run (b : Block ρ) : Compile ρ String := do
  let name ← Compile.lift (b.fieldText "STATE_NAME")
  return "return " ++ quoted name ++ ";\n"

def defineConstant.run (g : Generator ρ) (b : Block ρ) : Compile ρ String := do
  let name ← Compile.lift (b.fieldText "NAME")
  let value ← g.value (b.value? "VALUE") .assignment "undefined"
  Compile.register name ("const " ++ identifier name ++ " = " ++ value.text ++ ";")
  return ""

/-- The parameters between commas, without the empty ones. -/
def parameters (s : String) : List String :=
  (((s.toList.splitOn ',').filter (!Text.isAllBlank ·)).map fun cs => identifier (.ofList cs))

def defineFunction.run (b : Block ρ) : Compile ρ String := do
  let name ← Compile.lift (b.fieldText "NAME")
  let parameters := ", ".intercalate (parameters (b.fieldTextD "PARAMS" ""))
  let code := b.fieldTextD "CODE" ""
  Compile.register name
    ("function " ++ identifier name ++ "(" ++ parameters ++ ") \x7b\n" ++ code ++ "\n\x7d")
  return ""

def transition.run (g : Generator ρ) (b : Block ρ) : Compile ρ String := do
  return (← g.localTransition b).script ++ ",\n"

def run (rule : StatementRule) (g : Generator ρ) (b : Block ρ) : Compile ρ String :=
  match rule with
  | .inline parts => g.expand b parts
  | .actionSequence => actionSequence.run g b
  | .setMemory => setMemory.run g b
  | .branches => branches.run g b
  | .scope => scope.run g b
  | .declareVariable => declareVariable.run g b
  | .setVariable => setVariable.run g b
  | .returnState => returnState.run b
  | .defineConstant => defineConstant.run g b
  | .defineFunction => defineFunction.run b
  | .transition => transition.run g b

def fixed (code : String) : StatementRule := .inline [.text code]

def moveRandom : String := "\x7b
  const p = api.getRandomPoint();
  if (p) api.moveTo(p.x, p.y);
\x7d
"

def aimAtEnemy : String := "\x7b
  const enemy = api.scan();
  if (enemy) \x7b
    api.aimAt(enemy.x, enemy.y);
  \x7d
\x7d
"

def call (function socket : String) (context : Order) (default : String) : StatementRule :=
  .inline [.text (function ++ "("), .slot socket context default, .text ");\n"]

/-- A scope of its own, so that the position is evaluated once and may be null. -/
def moveTo : StatementRule :=
  .inline [.text "\x7b\n  const pos = ", .slot "POSITION" .assignment "\x7b x: 0, y: 0 \x7d",
    .text ";\n  if (pos) api.moveTo(pos.x, pos.y);\n\x7d\n"]

def stateReference : StatementRule := .inline [.slot "STATE" .atomic "\"\"", .text ","]

def table : Table StatementRule :=
  [("api_fire", fixed "api.fire();\n"), ("api_stop", fixed "api.stop();\n"),
    ("debug_breakpoint", fixed "debugger;\n"), ("api_move_random", fixed moveRandom),
    ("aim_at_enemy", fixed aimAtEnemy), ("api_log", call "api.log" "MESSAGE" .atomic "''"),
    ("api_turn", call "api.turn" "DEGREES" .none "0"),
    ("api_strafe", call "api.strafe" "DIRECTION" .atomic "'left'"), ("api_move_to", moveTo),
    ("action_sequence", .actionSequence), ("memory_set", .setMemory), ("controls_if", .branches),
    ("local_scope", .scope), ("local_declare_variable", .declareVariable),
    ("local_set_variable", .setVariable), ("fsm_return_state", .returnState),
    ("custom_constant_define", .defineConstant), ("custom_function_define", .defineFunction),
    ("fsm_transition", .transition), ("state_reference_statement", stateReference)]

def ofKind? (kind : String) : Option StatementRule := Table.get? table kind

end StatementRule

/-- Compiling blocks of a diagram whose nesting goes at most `depth` levels further. -/
def Watch.ofDepth {ρ : Type} (w : Watch ρ) (d : Diagram ρ) : Nat → Generator ρ
  | 0 => ⟨d, fun _ => Compile.fail (.defect .tooDeep), fun _ => Compile.fail (.defect .tooDeep)⟩
  | depth + 1 =>
    let inner := w.ofDepth d depth
    { diagram := d
      expression := fun r =>
        let b := d.block r
        match ValueRule.ofKind? b.kind with
        | none => Compile.fail (.rule (.unknownKind .value b.site))
        | some rule => w.visiting d r do inner.fill b (← Compile.lift (rule.template b))
      statement := fun r =>
        let b := d.block r
        match StatementRule.ofKind? b.kind with
        | none => Compile.fail (.rule (.unknownKind .statement b.site))
        | some rule => w.visiting d r (rule.run inner b) }

def Generator.ofDepth {ρ : Type} (d : Diagram ρ) (depth : Nat) : Generator ρ :=
  Watch.idle.ofDepth d depth

def Diagram.generator {ρ : Type} (d : Diagram ρ) : Generator ρ := Generator.ofDepth d (d.bound + 1)

end BlockMachine

import BlockMachine.Block.Tree

namespace BlockMachine

namespace Saved

def version : Int := 0

def optional (key : String) (value : Option Json) : Table Json :=
  match value with
  | some j => [(key, j)]
  | none => []

/-- The members of a saved block that are its own. -/
def ownMembers (l : Label) : Table Json :=
  ("type", .str l.kind) :: optional "id" (l.id.map .str) ++ optional "x" (l.x.map .float) ++
    optional "y" (l.y.map .float) ++ optional "extraState" (l.extraState.map .obj) ++
    (if l.fields.isEmpty then []
      else [("fields", .obj (l.fields.map fun (name, v) => (name, v.toJson)))])

def connection (l : Label) (saved : Json) : Json :=
  .obj [(if l.shadow then "shadow" else "block", saved)]

/-- The filled sockets; a statement socket takes the slot of a value socket of its name. -/
def filled {α : Type} (values statements : Table (Option α)) : Table α :=
  (Table.putAll values statements).filterMap fun (socket, child) => child.map (socket, ·)

/-- A saved block, from its label, the connections in its sockets and the one below it. -/
def block (l : Label) (inputs : Table Json) (next : Option Json) : Json :=
  .obj (ownMembers l ++ (if inputs.isEmpty then [] else [("inputs", .obj inputs)]) ++
    optional "next" next)

def document (blocks : List Json) : Json :=
  .obj [("blocks", .obj [("languageVersion", .int version), ("blocks", .arr blocks)])]

end Saved

namespace Tree

mutual
def saved : Tree → Json
  | .node label values statements next =>
    Saved.block label (Saved.filled (savedSockets values) (savedSockets statements))
      (savedPlug next)

def savedPlug : Option Tree → Option Json
  | none => none
  | some t => some (Saved.connection t.label (saved t))

def savedSockets : List (String × Option Tree) → List (String × Option Json)
  | [] => []
  | (socket, t) :: rest => (socket, savedPlug t) :: savedSockets rest
end

end Tree

def Workspace.save (w : Workspace) : Json := Saved.document (w.blocks.map Tree.saved)

namespace Diagram

variable {ρ : Type}

/-- The blocks of a stack put one below the other, from what each holds. -/
def savedStack : List (Label × Table Json) → Option Json
  | [] => none
  | (l, inputs) :: rest =>
    let next := rest.head?.bind fun (m, _) => (savedStack rest).map (Saved.connection m)
    some (Saved.block l inputs next)

/-- A stack of a diagram as it is saved. Every step of `depth` goes into a socket. -/
def saveStack (d : Diagram ρ) : Nat → ρ → Except Fault Json
  | 0, _ => .error (.defect .tooDeep)
  | depth + 1, top => do
    let parts ← (← d.stack (some top)).mapM fun r => do
      let b := d.block r
      let inputs ← (Saved.filled b.values b.statements).mapM fun (socket, child) => do
        let saved ← d.saveStack depth child
        return (socket, Saved.connection (d.block child).toLabel saved)
      return (b.toLabel, inputs)
    return (savedStack parts).getD .null

/-- The document that saves some stacks of a diagram. -/
def save (d : Diagram ρ) (tops : List ρ) : Except Fault Json :=
  (tops.mapM (d.saveStack (d.bound + 1))).map Saved.document

end Diagram
end BlockMachine

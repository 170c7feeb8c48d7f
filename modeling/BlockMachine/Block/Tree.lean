import BlockMachine.Block.Diagram

namespace BlockMachine

inductive Tree where
  | node (label : Label) (values statements : List (String × Option Tree)) (next : Option Tree)

namespace Tree

def block : Tree → Block Tree
  | .node label values statements next => { label with values, statements, next }

def label : Tree → Label
  | .node label _ _ _ => label

def next : Tree → Option Tree
  | .node _ _ _ next => next

mutual
def size : Tree → Nat
  | .node _ values statements next =>
    1 + sizeSockets values + sizeSockets statements + sizeOption next

def sizeSockets : List (String × Option Tree) → Nat
  | [] => 0
  | (_, t) :: rest => sizeOption t + sizeSockets rest

def sizeOption : Option Tree → Nat
  | none => 0
  | some t => size t
end

/-- The diagram of some trees. No two places in them are one block. -/
def diagram (ts : List Tree) : Diagram Tree :=
  ⟨block, fun _ _ => false, ts.foldr (fun t n => t.size + n) 0⟩

end Tree

/-- The blocks at the top of a saved workspace, in saved order. -/
structure Workspace where
  blocks : List Tree

def Workspace.diagram (w : Workspace) : Diagram Tree := Tree.diagram w.blocks

end BlockMachine

import BlockMachine.Fault

namespace BlockMachine

/-- What each reference holds, and when two references are one block. No stack and no nesting of
blocks that are not one is longer than `bound`. -/
structure Diagram (ρ : Type) where
  block : ρ → Block ρ
  same : ρ → ρ → Bool
  bound : Nat

namespace Diagram

variable {ρ : Type}

def site (d : Diagram ρ) (r : ρ) : Site := (d.block r).site

def seen (d : Diagram ρ) (r : ρ) (rs : List ρ) : Bool := rs.any (d.same r)

/-- The blocks from a reference on, following `next`, unless one comes up again. -/
def stackFrom (d : Diagram ρ) : Nat → List ρ → Option ρ → Except Fault (List ρ)
  | _, _, none => .ok []
  | 0, _, some _ => .error (.defect .tooDeep)
  | steps + 1, visited, some r =>
    if d.seen r visited then .error (.rule (.cycle (d.site r)))
    else (d.stackFrom steps (r :: visited) (d.block r).next).map (r :: ·)

def stack (d : Diagram ρ) (top : Option ρ) : Except Fault (List ρ) :=
  d.stackFrom (d.bound + 1) [] top

end Diagram

/-- Finitely many blocks, wired to each other in any way. -/
structure Sketch where
  size : Nat
  block : Fin size → Block (Fin size)

def Sketch.diagram (s : Sketch) : Diagram (Fin s.size) := ⟨s.block, fun a b => a == b, s.size⟩

end BlockMachine

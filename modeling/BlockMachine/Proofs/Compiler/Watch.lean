import BlockMachine.Compiler.Assembly

namespace BlockMachine.Watch

variable {ρ : Type} (w : Watch ρ) (d : Diagram ρ) (depth : Nat) (r : ρ)

def generator : Generator ρ := w.ofDepth d (d.bound + 1)

theorem diagram_ofDepth : (w.ofDepth d depth).diagram = d := by
  cases depth <;> rfl

theorem expression_succ :
    (w.ofDepth d (depth + 1)).expression r =
      (match ValueRule.ofKind? (d.block r).kind with
      | none => Compile.fail (.rule (.unknownKind .value (d.block r).site))
      | some rule => w.visiting d r do
        (w.ofDepth d depth).fill (d.block r) (← Compile.lift (rule.template (d.block r)))) :=
  rfl

theorem statement_succ :
    (w.ofDepth d (depth + 1)).statement r =
      (match StatementRule.ofKind? (d.block r).kind with
      | none => Compile.fail (.rule (.unknownKind .statement (d.block r).site))
      | some rule => w.visiting d r (rule.run (w.ofDepth d depth) (d.block r))) :=
  rfl

theorem visiting_idle {α : Type} (step : Compile ρ α) :
    idle.visiting d r step = Compile.visiting d r step := rfl

end BlockMachine.Watch

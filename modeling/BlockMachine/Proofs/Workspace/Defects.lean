import BlockMachine.Proofs.Block.Stack
import BlockMachine.Proofs.Compiler.Demands
import BlockMachine.Proofs.Compiler.Nesting
import Mathlib.Algebra.Group.Int.Defs

namespace BlockMachine

namespace Tree

variable {t u s : Tree}

theorem Within.trans (h : u.Within t) (ht : t.Within s) : u.Within s := by
  induction ht with
  | self => exact h
  | value hm _ ih => exact .value hm ih
  | statement hm _ ih => exact .statement hm ih
  | next hn _ ih => exact .next hn ih

end Tree

namespace Workspace

variable (w : Workspace)

/-- The fault is reported, or some block has a flaw that it stands for. -/
def Explains (f : Fault) : Prop :=
  f.report?.isSome ∨ ∃ d, f = .defect d ∧ ∃ s ∈ w.blocks, ∃ t : Tree, t.Within s ∧ t.block.Flaw d

/-- A block of the workspace that has room at some depth. -/
structure HasRoom (depth : Nat) (t : Tree) : Prop where
  size_le : t.size ≤ depth
  size_le_bound : t.size ≤ w.diagram.bound
  within : ∃ s ∈ w.blocks, t.Within s

/-- Any text may be declared, and faults have to be explained. -/
def faults : Contract where
  style := .nesting
  declaration _ := True
  fault := w.Explains
  accepted _ := trivial
  reported h := .inl h

variable {w} {t u : Tree} {depth : Nat}

theorem HasRoom.explains (h : w.HasRoom depth t) {f : Fault} (hf : t.block.Explains f) :
    w.Explains f := by
  obtain ⟨s, hs, ht⟩ := h.within
  rcases hf with hf | ⟨d, hd, hf⟩
  · exact .inl hf
  · exact .inr ⟨d, hd, s, hs, t, ht, hf⟩

theorem HasRoom.inner (h : w.HasRoom (depth + 1) t) (hu : u.Within t) (hs : u.size < t.size) :
    w.HasRoom depth u := by
  obtain ⟨hd, hb, s, hm, ht⟩ := h
  exact ⟨by omega, by omega, s, hm, hu.trans ht⟩

theorem HasRoom.below (h : w.HasRoom depth t) (hn : t.block.next = some u) : w.HasRoom depth u := by
  have hs := Tree.size_lt_of_next hn
  obtain ⟨hd, hb, s, hm, ht⟩ := h
  exact ⟨by omega, by omega, s, hm, (Tree.Within.next hn .self).trans ht⟩

theorem HasRoom.held (h : w.HasRoom (depth + 1) t) :
    Contract.Held (w.HasRoom depth) (w.diagram.block t) := by
  constructor
  · intro socket u hu
    have hm := Table.mem_of_join_get? hu
    exact h.inner (.value hm .self) (Tree.size_lt_of_mem_values hm)
  · intro socket u hu
    have hm := Table.mem_of_join_get? hu
    exact h.inner (.statement hm .self) (Tree.size_lt_of_mem_statements hm)

theorem HasRoom.stack (h : w.HasRoom depth t) :
    w.faults.Answers (fun ts => ∀ t ∈ ts, w.HasRoom depth t) (w.diagram.stack (some t)) := by
  have hts := Tree.stackFrom_eq w.blocks [] (Nat.le_succ_of_le h.size_le_bound)
  have hall := Diagram.forall_mem_stackFrom (fun hr hn => HasRoom.below hr hn)
    (fun r hr => Option.some.inj hr ▸ h) hts
  rw [show w.diagram.stack (some t) = .ok t.stacked from hts]
  exact .ok hall

theorem covers_faults (w : Workspace) : w.faults.Covers w.diagram w.HasRoom where
  mono h := ⟨Nat.le_succ_of_le h.size_le, h.size_le_bound, h.within⟩
  serves h := ⟨h.held, fun _ _ => trivial⟩
  stack h := h.stack
  tooDeep {t} h := absurd h.size_le (Nat.not_le.2 t.size_pos)
  template h hk hf := h.explains
    ((ValueRule.template_breaks hk hf).explains (ValueRule.suits_ofKind? hk).branchless)
  branches h hk hf :=
    h.explains (StatementRule.branchIndices_error (StatementRule.kind_of_branches hk) hf)
  function _ _ _ := trivial

theorem explains_of_compile {f : Fault} (h : w.compile.result = .error f) : w.Explains f := by
  have ha := (covers_faults w).compileAll fun t ht =>
    ⟨Nat.le_succ_of_le (Tree.size_le_bound ht), Tree.size_le_bound ht, t, ht, .self⟩
  change w.faults.Answers _ w.compile.result at ha
  rw [h] at ha
  cases ha with
  | error hf => exact hf

theorem expression_of_template {rule : ValueRule} {f : Fault}
    (hk : ValueRule.ofKind? t.block.kind = some rule) (hf : rule.template t.block = .error f) :
    (w.diagram.generator.expression t).start.result = .error f := by
  have hk : ValueRule.ofKind? (w.diagram.block t).kind = some rule := hk
  have hf : rule.template (w.diagram.block t) = .error f := hf
  rw [Diagram.generator, Generator.expression_succ, hk]
  dsimp only
  rw [hf]
  rfl

theorem statement_of_branchIndices {f : Fault} (hk : t.block.kind = "controls_if")
    (hf : StatementRule.branchIndices t.block = .error f) :
    (w.diagram.generator.statement t).start.result = .error f := by
  have hk : StatementRule.ofKind? (w.diagram.block t).kind = some .branches := by
    rw [show (w.diagram.block t).kind = "controls_if" from hk]
    rfl
  have hf : StatementRule.branchIndices (w.diagram.block t) = .error f := hf
  rw [Diagram.generator, Generator.statement_succ, hk]
  dsimp only
  rw [StatementRule.run, StatementRule.branches.run, hf]
  rfl

/-- A block with a flaw fails in any workspace, as the value or the statement that it is. -/
theorem fails_of_flaw {d : Defect} (h : t.block.Flaw d) :
    (w.diagram.generator.expression t).start.result = .error (.defect d) ∨
      (w.diagram.generator.statement t).start.result = .error (.defect d) := by
  cases h with
  | number hk hn hl =>
    have hr : ValueRule.ofKind? t.block.kind = some .number := by
      rw [hk]
      rfl
    have hf := ValueRule.numberOf_of_large hn hl
    exact .inl (expression_of_template hr (map_eq_error.2 hf))
  | slot hk hs hd hl =>
    have hr : ValueRule.ofKind? t.block.kind = some .list := by
      rw [hk]
      rfl
    have hf := ValueRule.slotCount_of_long hs hd hl
    exact .inl (expression_of_template hr (map_eq_error.2 hf))
  | branch hk hc hs hd hl =>
    exact .inr (statement_of_branchIndices hk (StatementRule.branchIndices_of_long hc hs hd hl))

/-- A workspace compiles, or the author is told why not, or one of its blocks has a flaw. A block
with a flaw never compiles and is never reported. -/
theorem compile_outcome (w : Workspace) :
    ((∃ p, w.compile.result = .ok p) ∨
      (∃ f report, w.compile.result = .error f ∧ f.report? = some report) ∨
      ∃ d, w.compile.result = .error (.defect d) ∧
        ∃ s ∈ w.blocks, ∃ t : Tree, t.Within s ∧ t.block.Flaw d) ∧
    ∀ (t : Tree) (d : Defect), t.block.Flaw d →
      (w.diagram.generator.expression t).start.result = .error (.defect d) ∨
        (w.diagram.generator.statement t).start.result = .error (.defect d) := by
  refine ⟨?_, fun t d h => fails_of_flaw h⟩
  cases hr : w.compile.result with
  | ok p => exact .inl ⟨p, rfl⟩
  | error f =>
    rcases explains_of_compile hr with hf | ⟨d, rfl, hf⟩
    · obtain ⟨report, hf⟩ := Option.isSome_iff_exists.1 hf
      exact .inr (.inl ⟨f, report, rfl, hf⟩)
    · exact .inr (.inr ⟨d, rfl, hf⟩)

def numberBlock (n : Int) : Tree :=
  .node { kind := "math_number", fields := [("NUM", .int n)] } [] [] none

/-- A program that declares a constant with a number. -/
def ofNumber (n : Int) : Workspace :=
  ⟨[.node { kind := "ai_definition", fields := [("INITIAL_STATE", .text "idle")] } [] [] none,
    .node { kind := "custom_constant_define", fields := [("NAME", .text "k")] }
      [("VALUE", some (numberBlock n))] [] none]⟩

theorem ofNumber_outcome :
    (numberBlock (10 ^ 309)).block.Flaw .numberTooLarge ∧
      ((ofNumber (10 ^ 309)).diagram.generator.expression (numberBlock (10 ^ 309))).start.result =
        .error (.defect .numberTooLarge) := by
  have hf : (numberBlock (10 ^ 309)).block.Flaw .numberTooLarge :=
    .number rfl rfl (by decide +kernel)
  refine ⟨hf, ?_⟩
  rcases (compile_outcome (ofNumber (10 ^ 309))).2 _ _ hf with he | hs
  · exact he
  · cases hs

/-- The defect of a fault that is not reported. -/
def defect? {α : Type} : Except Fault α → Option Defect
  | .error (.defect d) => some d
  | _ => none

theorem eq_of_defect? {α : Type} {x : Except Fault α} {d : Defect} (h : defect? x = some d) :
    x = .error (.defect d) := by
  unfold defect? at h
  split at h
  · cases h
    rfl
  · cases h

/-- A number that is too large is not reported as one. -/
theorem ofNumber_too_large :
    (ofNumber (10 ^ 309)).compile.result = .error (.defect .numberTooLarge) :=
  eq_of_defect? (by decide +kernel)

end Workspace

end BlockMachine

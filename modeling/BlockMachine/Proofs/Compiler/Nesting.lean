import BlockMachine.Proofs.Compiler.Demands
import BlockMachine.Proofs.Compiler.Traversal

namespace BlockMachine

open Nesting

namespace Diagram

variable {ρ : Type} {d : Diagram ρ} {tops : List ρ}

/-- The blocks of a program: those at the top, and all that they hold or have below them. -/
inductive Reaches (d : Diagram ρ) (tops : List ρ) : ρ → Prop
  | top {r : ρ} : r ∈ tops → Reaches d tops r
  | value {r s : ρ} {socket : String} :
    Reaches d tops r → (socket, some s) ∈ (d.block r).values → Reaches d tops s
  | statement {r s : ρ} {socket : String} :
    Reaches d tops r → (socket, some s) ∈ (d.block r).statements → Reaches d tops s
  | next {r s : ρ} : Reaches d tops r → (d.block r).next = some s → Reaches d tops s

theorem Reaches.held {r : ρ} (h : d.Reaches tops r) :
    Contract.Held (d.Reaches tops) (d.block r) :=
  ⟨fun hs => h.value (Table.mem_of_join_get? hs), fun hs => h.statement (Table.mem_of_join_get? hs)⟩

end Diagram

/-- Declarations have to be nested, and any fault may come up. -/
def Contract.nesting : Contract where
  style := .nesting
  declaration := Nested
  fault _ := True
  accepted h := h
  reported _ := trivial

theorem Diagram.covers_nesting {ρ : Type} {d : Diagram ρ} {tops : List ρ}
    (hf : ∀ r, d.Reaches tops r → (d.block r).kind ≠ "custom_function_define") :
    Contract.nesting.Covers d fun _ => d.Reaches tops := by
  refine ⟨fun hr => hr, fun hr => ⟨hr.held, fun _ _ => trivial⟩, fun {_ r} hr => ?_,
    fun _ => trivial, fun _ _ _ => trivial, fun _ _ _ => trivial, fun {_ r} hr hk => ?_⟩
  · cases hs : d.stack (some r) with
    | ok rs =>
      refine .ok (forall_mem_stackFrom (fun h hn => h.next hn) ?_ hs)
      rintro _ ⟨⟩
      exact hr
    | error f => exact .error trivial
  · exact absurd ((StatementRule.suits_ofKind? hk).sole _ rfl) (hf r hr)

/-- The script of a program has all its brackets matched and all its literals closed, whatever the
author has typed into the fields of its blocks, if no function is written by hand. -/
theorem Diagram.script_nested {ρ : Type} (d : Diagram ρ) (tops : List ρ)
    (hf : ∀ r, d.Reaches tops r → (d.block r).kind ≠ "custom_function_define") {p : Program}
    (h : (d.compileAll tops).result = .ok p) : Nested p.script := by
  have hs := (covers_nesting hf).compileAll fun r hr => .top hr
  rw [h] at hs
  cases hs with
  | ok hs => exact hs.script fun e he => (hs.definitions e he).text

theorem Tree.All.of_reaches {p : Tree → Prop} {ts tops : List Tree} {t : Tree}
    (h : ∀ s ∈ tops, s.All p) (ht : (Tree.diagram ts).Reaches tops t) : t.All p := by
  induction ht with
  | top hm => exact h _ hm
  | value _ hm ih => exact ih.beneath.values _ _ hm
  | statement _ hm ih => exact ih.beneath.statements _ _ hm
  | next _ hn ih => exact ih.beneath.next _ hn

/-- The author's words look like brackets, quotes and escapes. -/
def trickyWorkspace : Workspace :=
  ⟨[.node { kind := "ai_definition", fields := [("INITIAL_STATE", .text "\x7d\"('")] } []
    [("STATES", some (.node { kind := "fsm_state", fields := [("STATE_NAME", .text "\x7d\"('")] } []
      [("ON_ENTER", some (.node { kind := "memory_set", fields := [("KEY", .text "]\\")] } [] []
        none))] none))] none]⟩

theorem trickyWorkspace_nested :
    ∃ p, trickyWorkspace.compile.result = .ok p ∧ Nested p.script := by
  have hc : (trickyWorkspace.compile.result.map (·.states.length)).toOption = some 1 := by
    decide +kernel
  have hf : ∀ s ∈ trickyWorkspace.blocks, s.All (·.block.kind ≠ "custom_function_define") := by
    refine List.forall_mem_singleton.2 (.node (by decide) nofun (fun _ s hs => ?_) nofun)
    cases List.mem_singleton.1 hs
    refine .node (by decide) nofun (fun _ s hs => ?_) nofun
    cases List.mem_singleton.1 hs
    exact .node (by decide) nofun nofun nofun
  cases hp : trickyWorkspace.compile.result with
  | ok p =>
    exact ⟨p, rfl, Diagram.script_nested _ _ (fun r hr => (Tree.All.of_reaches hf hr).self) hp⟩
  | error f =>
    rw [hp] at hc
    cases hc

end BlockMachine

import BlockMachine.Proofs.Block.Sketch
import BlockMachine.Proofs.Compiler.Coupling
import BlockMachine.Proofs.Compiler.Faults

namespace BlockMachine

namespace Sketch

variable {s : Sketch}

/-- A sketch without circles, and trees among which its blocks are unfolded. The blocks being
compiled stand around or above the next one, and its tree is no larger than what is left. -/
def unfolding (hs : s.Acyclic) (ts : List Tree) : Coupling (Fin s.size) Tree where
  left := s.diagram
  right := Tree.diagram ts
  watch := .idle
  image := s.unfold
  valid k k' rs r := s.Ample k rs ∧ s.Above rs r ∧ (s.unfold r).size ≤ k' ∧
    (s.unfold r).size ≤ (Tree.diagram ts).bound
  block := block_unfold hs
  positive h := ⟨h.1.pos, Nat.lt_of_lt_of_le (Tree.size_pos _) h.2.2.1⟩
  succ h := ⟨h.1.succ, h.2.1, Nat.le_succ_of_le h.2.2.1, h.2.2.2⟩
  beside h hu := by
    obtain ⟨hn, ha, hk, hb⟩ := h
    have hlt := size_unfold_lt hs hu
    exact ⟨hn, ha.beside hu, by omega, by omega⟩
  inside h hn hu := by
    obtain ⟨hr, ha, hk, hb⟩ := h
    have hlt := size_unfold_lt hs hu
    exact ⟨hr.inside hn, ha.inside hu, by omega, by omega⟩
  allows _ _ := rfl
  seen h := by
    rw [Tree.seen_diagram, h.2.1.not_seen hs]
  stack {_ _ _ r} h := by
    obtain ⟨rs, hrs, he⟩ := stack_unfold hs r
    rw [hrs, Tree.stack_eq fun _ ht => Option.some.inj ht ▸ h.2.2.2, Tree.stackedOption, ← he]
    rfl
  shallow {_ _ _ r} _ := by
    obtain ⟨rs, hrs, -⟩ := stack_unfold hs r
    rw [hrs]
    nofun

theorem compile_eq (hs : s.Acyclic) (root : Fin s.size) (beside : List (Fin s.size)) :
    s.diagram.compile root beside =
      (Tree.diagram (s.unfold root :: beside.map s.unfold)).compile (s.unfold root)
        (beside.map s.unfold) := by
  generalize hts : s.unfold root :: beside.map s.unfold = ts
  have hvalid {r : Fin s.size} (hr : s.unfold r ∈ ts) :
      (unfolding hs ts).valid (s.size + 1) ((Tree.diagram ts).bound + 1) [] r := by
    have hb := Tree.size_le_bound hr
    exact ⟨.start (Nat.le_refl s.size) .nil, .nil r, Nat.le_succ_of_le hb, hb⟩
  have hbuild := (unfolding hs ts).builders (s.size + 1) ((Tree.diagram ts).bound + 1) []
  have hroot : s.unfold root ∈ ts := hts ▸ List.mem_cons_self
  have hbeside (r : Fin s.size) (hr : r ∈ beside) : s.unfold r ∈ ts :=
    hts ▸ List.mem_cons_of_mem _ (List.mem_map_of_mem hr)
  have hruns := hbuild.program ⟨rfl, hvalid hroot⟩ (List.forall₂_map_right_iff.2
    (List.forall₂_same.2 fun r hr => ⟨rfl, hvalid (hbeside r hr)⟩))
  have heq := (hruns.start ⟨rfl, rfl⟩).eq And.left id
  rw [Diagram.compile, Diagram.compile, Diagram.generator, Diagram.generator]
  exact heq

/-- A sketch without circles has an unfolding, and comes to the same machine or to the same fault
as it, with the same events. So no block of it is ever found to stand inside itself. -/
theorem compile_unfolded (hs : s.Acyclic) (root : Fin s.size) (beside : List (Fin s.size)) :
    (∀ r, (s.unfold r).block = (s.block r).map s.unfold) ∧
    s.diagram.compile root beside =
      (Tree.diagram (s.unfold root :: beside.map s.unfold)).compile (s.unfold root)
        (beside.map s.unfold) ∧
    ∀ site, (s.diagram.compile root beside).result ≠ .error (.rule (.cycle site)) := by
  have heq := compile_eq hs root beside
  refine ⟨block_unfold hs, heq, ?_⟩
  intro site hf
  rw [heq] at hf
  obtain ⟨t, hsite, hcycle⟩ :=
    Tree.exists_concerns_of_compile List.mem_cons_self (fun _ => List.mem_cons_of_mem _) hf
  cases hsite
  exact hcycle rfl

/-- A state that does on exit what it does on entry, by the same blocks, and a sum of a number with
itself. -/
def sharing : Sketch where
  size := 5
  block
    | 0 => { kind := "ai_definition", fields := [("INITIAL_STATE", .text "idle")],
             statements := [("STATES", some 1)] }
    | 1 => { kind := "fsm_state", fields := [("STATE_NAME", .text "idle")],
             statements := [("ON_ENTER", some 2), ("ON_EXIT", some 2)] }
    | 2 => { kind := "api_turn", values := [("DEGREES", some 3)] }
    | 3 => { kind := "math_arithmetic", values := [("A", some 4), ("B", some 4)] }
    | 4 => { kind := "math_number", fields := [("NUM", .int 45)] }

theorem sharing_compiles :
    sharing.Acyclic ∧
      (Tree.diagram [sharing.unfold (0 : Fin 5)]).compile (sharing.unfold (0 : Fin 5)) [] =
        sharing.diagram.compile (0 : Fin 5) [] ∧
      ((sharing.diagram.compile (0 : Fin 5) []).result.toOption.map fun p =>
        p.states.map fun e => (e.2.onEnter, e.2.onExit)) =
        some [("api.turn(45 + 45);\n", "api.turn(45 + 45);\n")] := by
  have hs : sharing.Acyclic := acyclic_of_lt (by decide)
  exact ⟨hs, (compile_unfolded hs (0 : Fin 5) []).2.1.symm, by decide +kernel⟩

end Sketch
end BlockMachine

import BlockMachine.Proofs.Compiler.Declaring
import BlockMachine.Proofs.Compiler.Relocation

namespace BlockMachine

open Position (deeds deeds_append deeds_singleton deeds_flatMap deeds_map)

namespace Tree

variable {t : Tree}

def bare (t : Tree) : Tree := t.withNext none

/-- The definitions in some stacks, each on its own. -/
def definitions (tops : List Tree) : List Tree :=
  tops.flatMap fun top => (top.stacked.filter (·.block.kind ∈ Catalog.definitionKinds)).map bare

def declared (t : Tree) : Except Fault Unit :=
  ((diagram [t]).generator.statement t).start.result.map fun _ => ()

theorem definitions_append (tops tops' : List Tree) :
    definitions (tops ++ tops') = definitions tops ++ definitions tops' :=
  List.flatMap_append

theorem definitions_singleton (t : Tree) : definitions [t] =
    (t.stacked.filter (·.block.kind ∈ Catalog.definitionKinds)).map bare :=
  List.flatMap_singleton _ _

theorem deeds_bare (t : Tree) : deeds [⟨.statement, t.bare⟩] = deeds [⟨.statement, t⟩] := by
  have hp : (⟨.statement, t.bare⟩ : Position).parts = (⟨.statement, t⟩ : Position).parts := by
    cases t
    rfl
  have hd : (⟨.statement, t.bare⟩ : Position).deed? = (⟨.statement, t⟩ : Position).deed? := by
    cases t
    rfl
  rw [deeds_singleton, deeds_singleton, hp, hd]

theorem deeds_definitions (tops : List Tree) :
    deeds ((definitions tops).map (⟨.statement, ·⟩)) =
      deeds (tops.flatMap fun top =>
        (top.stacked.filter (·.block.kind ∈ Catalog.definitionKinds)).map (⟨.statement, ·⟩)) := by
  rw [definitions, List.map_flatMap, deeds_flatMap, deeds_flatMap]
  congr 1
  funext top
  rw [List.map_map, deeds_map, deeds_map]
  simp only [Function.comp_apply, deeds_bare]

end Tree

namespace Room

variable {ts us : List Tree} {k k' : Nat} {t : Tree}

theorem statement_eq (h : Room ts k t) (h' : Room us k' t) :
    (Generator.ofDepth (Tree.diagram ts) k).statement t =
      (Generator.ofDepth (Tree.diagram us) k').statement t :=
  Coupling.eq_of_runs rfl fun rs => (builders ts us k k' rs).statement (refs h h' rs)

theorem program_eq (h : Room ts k t) (h' : Room us k' t) :
    (Generator.ofDepth (Tree.diagram ts) k).program t [] =
      (Generator.ofDepth (Tree.diagram us) k').program t [] := by
  exact Coupling.eq_of_runs rfl fun rs => (builders ts us k k' rs).program (refs h h' rs) .nil

end Room

namespace Compile

variable {ρ α : Type}

/-- Steps that come to the same wherever they start from come one by one to what they come to
together. -/
theorem Does.start_forM {xs : List α} {k : α → Compile ρ Unit} {deeds : α → List Deed}
    (h : ∀ a ∈ xs, (k a).Does (deeds a)) :
    (xs.forM k).start.result = xs.forM fun a => (k a).start.result := by
  induction xs with
  | nil => rfl
  | cons a xs ih =>
    obtain ⟨ha, hxs⟩ := List.forall_mem_cons.1 h
    change _ = (k a).start.result >>= fun _ => xs.forM fun a => (k a).start.result
    rw [← ih hxs]
    exact ha.start_bind fun _ _ => Does.forM hxs

end Compile

namespace Recorder

variable {ts : List Tree} {n : Nat} {g : Generator Tree} {t : Tree}

theorem exists_rule (hk : t.block.kind ∈ Catalog.definitionKinds) :
    ∃ rule, StatementRule.ofKind? t.block.kind = some rule ∧
      ∀ g : Generator Tree, rule.run g t.bare.block = rule.run g t.block := by
  rcases List.mem_cons.1 hk with hf | hc
  · refine ⟨.defineFunction, ?_, fun g => ?_⟩
    · rw [hf]
      rfl
    · cases t
      rfl
  · refine ⟨.defineConstant, ?_, fun g => ?_⟩
    · rw [List.mem_singleton.1 hc]
      rfl
    · cases t
      rfl

theorem start_statement (h : Room ts n t) (hk : t.block.kind ∈ Catalog.definitionKinds) :
    ((Generator.ofDepth (Tree.diagram ts) n).statement t).start.result.map (fun _ => ()) =
      t.bare.declared := by
  have hb : Room ts n t.bare := h.self_bare
  rw [Tree.declared, Diagram.generator,
    ← Room.statement_eq hb (.generator (List.mem_singleton_self _))]
  cases n with
  | zero => exact absurd h.depth (Nat.not_le.2 t.size_pos)
  | succ n =>
    obtain ⟨rule, hr, hrun⟩ := exists_rule hk
    have hr' : StatementRule.ofKind? t.bare.block.kind = some rule := by
      rw [← hr]
      cases t
      rfl
    have hd := (ofDepth ts n).run h.held hr
    have hd' := (ofDepth ts n).run hb.held hr'
    rw [Generator.statement_succ, Generator.statement_succ, Tree.block_diagram,
      Tree.block_diagram, hr, hr']
    dsimp only
    rw [hd.start_visiting, hd'.start_visiting, hrun]

theorem start_preambleBlock (h : Room ts n t) :
    ((Generator.ofDepth (Tree.diagram ts) n).preambleBlock t).start.result =
      if t.block.kind ∈ Catalog.definitionKinds then t.bare.declared else .ok () := by
  have hg := ofDepth ts n
  rw [Generator.preambleBlock, hg.block]
  by_cases hk : t.block.kind ∈ Catalog.definitionKinds
  · rw [if_pos (List.contains_iff_mem.2 hk), if_pos hk, ← start_statement h hk]
    exact (hg.statement h).start_bind fun _ _ => .pure ()
  · rw [if_neg (mt List.contains_iff_mem.1 hk), if_neg hk]
    rfl

theorem start_stack {us : List Tree} (h : ∀ u ∈ us, Room ts n u) :
    (us.forM (Generator.ofDepth (Tree.diagram ts) n).preambleBlock).start.result =
      ((us.filter (·.block.kind ∈ Catalog.definitionKinds)).map Tree.bare).forM Tree.declared := by
  rw [Compile.Does.start_forM fun u hu => (ofDepth ts n).preambleBlock (h u hu)]
  induction us with
  | nil => rfl
  | cons u us ih =>
    obtain ⟨hu, hus⟩ := List.forall_mem_cons.1 h
    change ((Generator.ofDepth (Tree.diagram ts) n).preambleBlock u).start.result >>=
      (fun _ => us.forM _) = _
    rw [start_preambleBlock hu, ih hus]
    by_cases hk : u.block.kind ∈ Catalog.definitionKinds
    · rw [if_pos hk, List.filter_cons_of_pos (by simpa using hk)]
      rfl
    · rw [if_neg hk, List.filter_cons_of_neg (by simpa using hk)]
      rfl

theorem start_preamble {tops : List Tree} (h : ∀ t ∈ tops, Room ts n t) :
    ((Generator.ofDepth (Tree.diagram ts) n).preamble tops).start.result =
      (Tree.definitions tops).forM Tree.declared := by
  have hg := ofDepth ts n
  induction tops with
  | nil => rfl
  | cons top tops ih =>
    obtain ⟨htop, htops⟩ := List.forall_mem_cons.1 h
    have hs : ∀ t, some top = some t → Room ts n t := fun t he => Option.some.inj he ▸ htop
    have hus := Room.stackedOption hs
    rw [Tree.stackedOption] at hus
    have hx := Compile.Does.forM fun u hu => hg.preambleBlock (hus u hu)
    have hd : Tree.definitions (top :: tops) = (top.stacked.filter
        (·.block.kind ∈ Catalog.definitionKinds)).map Tree.bare ++ Tree.definitions tops := rfl
    have hp := hx.start_bind fun _ _ => hg.preamble htops
    rw [start_stack hus, ih htops] at hp
    rw [Generator.preamble, hg.stack hs, Tree.stackedOption, hd]
    exact hp.trans List.forM_append.symm

end Recorder

theorem Generator.program_eq_bind {ρ : Type} {g : Generator ρ} {root : ρ}
    (hk : (g.diagram.block root).kind = Catalog.rootKind) (beside : List ρ) :
    g.program root beside = g.preamble beside >>= fun _ => g.program root [] := by
  rw [program, program, Watch.program, Watch.program, if_neg (not_not.2 hk), if_neg (not_not.2 hk)]
  rfl

/-- A program comes to what its root comes to alone, if all definitions beside it can be made. What
they declare stands in front of what the root declares. -/
theorem Tree.compile_beside {ts : List Tree} {root : Tree} {beside : List Tree}
    (hk : root.block.kind = Catalog.rootKind) (hr : root ∈ ts) (hb : ∀ t ∈ beside, t ∈ ts) :
    ((diagram ts).compile root beside).result =
      (definitions beside).forM declared >>= fun _ =>
        ((diagram [root]).compile root []).result.map fun p =>
          { p with definitions := (({} : Definitions).after
            (deeds ((definitions beside).map (⟨.statement, ·⟩) ++ [⟨.root, root⟩]))).entries } := by
  have hg := Recorder.ofDepth ts ((diagram ts).bound + 1)
  have hroot : Room ts ((diagram ts).bound + 1) root := .generator hr
  have hbeside : ∀ t ∈ beside, Room ts ((diagram ts).bound + 1) t :=
    fun t ht => .generator (hb t ht)
  have hp := (hg.preamble hbeside).comesTo_bind (c := {})
    (fun _ _ => hg.program hroot (List.forall_mem_nil _)) rfl
  rw [← Generator.program_eq_bind (by rw [hg.block]; exact hk), Recorder.start_preamble hbeside,
    hroot.program_eq (.generator (List.mem_singleton_self root)), ← deeds_definitions] at hp
  rw [deeds_append]
  exact (Compile.result_start _).trans hp

end BlockMachine

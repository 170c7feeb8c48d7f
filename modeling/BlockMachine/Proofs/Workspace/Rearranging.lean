import BlockMachine.Proofs.Compiler.Entries
import BlockMachine.Proofs.Compiler.History
import BlockMachine.Proofs.Compiler.Strays
import BlockMachine.Proofs.Workspace.Declarations
import Mathlib.Logic.Relation

namespace BlockMachine

open Position (deeds deeds_append deeds_map)

namespace Tree

variable {ts us : List Tree} {x t t' root : Tree} {i : Nat}

theorem definitions_of_forall₂
    (h : List.Forall₂ (fun t t' => ∃ next, t' = t.withNext next) ts us) :
    (us.filter (·.block.kind ∈ Catalog.definitionKinds)).map bare =
      (ts.filter (·.block.kind ∈ Catalog.definitionKinds)).map bare := by
  induction h with
  | nil => rfl
  | @cons t _ _ _ he _ ih =>
    obtain ⟨next, rfl⟩ := he
    have hk : (t.withNext next).block.kind = t.block.kind := by
      cases t
      rfl
    by_cases hd : t.block.kind ∈ Catalog.definitionKinds
    · rw [List.filter_cons_of_pos (by simpa [hk] using hd),
        List.filter_cons_of_pos (by simpa using hd), List.map_cons, List.map_cons, ih, bare,
        withNext_withNext]
      rfl
    · rw [List.filter_cons_of_neg (by simpa [hk] using hd),
        List.filter_cons_of_neg (by simpa using hd), ih]

theorem definitions_insertAt (hx : x.block.kind ∉ Catalog.definitionKinds)
    (h : x.insertAt i (some t) = some t') : definitions [t'] = definitions [t] := by
  obtain ⟨before, next, hs, hb⟩ := stackedOption_insertAt x i (some t)
  have hk : (x.withNext next).block.kind ∉ Catalog.definitionKinds := by
    cases x
    exact hx
  rw [h] at hs
  change t'.stacked = _ ++ _ :: t.stacked.drop i at hs
  rw [definitions_singleton, definitions_singleton, hs, List.filter_append,
    List.filter_cons_of_neg (by simpa using hk), List.map_append, definitions_of_forall₂ hb,
    ← List.map_append, ← List.filter_append]
  exact congrArg (fun ts => (List.filter _ ts).map bare) (List.take_append_drop i t.stacked)

theorem definitions_eq_nil (h : ∀ u ∈ t.stacked, u.block.kind ∉ Catalog.definitionKinds) :
    definitions [t] = [] := by
  rw [definitions_singleton, List.filter_eq_nil_iff.2 (by simpa using h)]
  rfl

theorem compile_alone (hr : root ∈ ts) :
    (diagram ts).compile root [] = (diagram [root]).compile root [] :=
  congrArg Compile.start (Room.program_eq (.generator hr) (.generator (List.mem_singleton_self _)))

theorem keys_declared (ht : Room ts ((diagram ts).bound + 1) t)
    (hk : t.block.kind ∈ Catalog.definitionKinds) (h : t.bare.declared = .ok ()) :
    Table.keys (((diagram ts).generator.statement t).entriesAfter {}) =
      ((deeds [⟨.statement, t⟩]).map Deed.key).eraseDups := by
  rw [← Recorder.start_statement ht hk] at h
  obtain ⟨line, hs, -⟩ := map_eq_ok.1 h
  have hd := (Recorder.ofDepth ts ((diagram ts).bound + 1)).statement ht {} rfl
  rw [hs] at hd
  rw [← Definitions.keys_of_deeds, Compile.entriesAfter, Diagram.generator]
  generalize (Generator.ofDepth (diagram ts) ((diagram ts).bound + 1)).statement t {} = u at hd ⊢
  cases hd with
  | ok _ he => exact congrArg (fun d => Table.keys d.entries) he
  | error he => cases he

end Tree

namespace Workspace

variable {w w' : Workspace} {root : Tree}

def roots (w : Workspace) : List Tree := w.blocks.filter w.diagram.isRoot

/-- What lies at the top of a workspace and is no root. -/
def beside (w : Workspace) : List Tree := w.blocks.filter (!w.diagram.isRoot ·)

/-- The definitions beside the root, stack by stack and from the top down. -/
def strays (w : Workspace) : List Tree :=
  w.beside.flatMap fun top => top.stacked.filter (·.block.kind ∈ Catalog.definitionKinds)

/-- What the definitions beside the root enter, each into an empty table. -/
def strayKeys (w : Workspace) : List String :=
  w.strays.flatMap fun t => Table.keys ((w.diagram.generator.statement t).entriesAfter {})

/-- One change to what lies at the top of a workspace: a root is moved, a stack without definitions
is put in, or a block that is no definition is put into a stack. -/
inductive Rearrangement : Workspace → Workspace → Prop
  | root (root : Tree) (before after before' after' : List Tree)
      (hk : root.block.kind = Catalog.rootKind) (h : before ++ after = before' ++ after') :
      Rearrangement ⟨before ++ root :: after⟩ ⟨before' ++ root :: after'⟩
  | stack (t : Tree) (before after : List Tree) (hk : t.block.kind ≠ Catalog.rootKind)
      (hd : ∀ u ∈ t.stacked, u.block.kind ∉ Catalog.definitionKinds) :
      Rearrangement ⟨before ++ after⟩ ⟨before ++ t :: after⟩
  | block (x t t' : Tree) (i : Nat) (before after : List Tree)
      (hx : x.block.kind ∉ Catalog.definitionKinds) (hk : t.block.kind ≠ Catalog.rootKind)
      (hk' : t'.block.kind ≠ Catalog.rootKind) (h : x.insertAt i (some t) = some t') :
      Rearrangement ⟨before ++ t :: after⟩ ⟨before ++ t' :: after⟩

theorem roots_append_cons_of_ne {t : Tree} (hk : t.block.kind ≠ Catalog.rootKind)
    (before after : List Tree) : roots ⟨before ++ t :: after⟩ = roots ⟨before ++ after⟩ := by
  change (before ++ t :: after).filter (·.block.kind == Catalog.rootKind) =
    (before ++ after).filter (·.block.kind == Catalog.rootKind)
  rw [List.filter_append, List.filter_append, List.filter_cons_of_neg (by simpa using hk)]

theorem beside_append_cons_of_eq {t : Tree} (hk : t.block.kind = Catalog.rootKind)
    (before after : List Tree) : beside ⟨before ++ t :: after⟩ = beside ⟨before ++ after⟩ := by
  change (before ++ t :: after).filter (!·.block.kind == Catalog.rootKind) =
    (before ++ after).filter (!·.block.kind == Catalog.rootKind)
  rw [List.filter_append, List.filter_append, List.filter_cons_of_neg (by simpa using hk)]

theorem beside_append_cons_of_ne {t : Tree} (hk : t.block.kind ≠ Catalog.rootKind)
    (before after : List Tree) :
    beside ⟨before ++ t :: after⟩ = beside ⟨before⟩ ++ ([t] ++ beside ⟨after⟩) := by
  change (before ++ t :: after).filter (!·.block.kind == Catalog.rootKind) = _
  rw [List.filter_append, List.filter_cons_of_pos (by simpa using hk)]
  rfl

theorem beside_append (before after : List Tree) :
    beside ⟨before ++ after⟩ = beside ⟨before⟩ ++ beside ⟨after⟩ :=
  List.filter_append before after

namespace Rearrangement

theorem roots_perm (h : Rearrangement w w') : w.roots.Perm w'.roots := by
  cases h with
  | root _ _ _ _ _ hk h =>
    apply List.Perm.filter
    apply List.perm_middle.trans
    rw [h]
    exact List.perm_middle.symm
  | stack _ _ _ hk hd => rw [roots_append_cons_of_ne hk]
  | block _ _ _ _ _ _ hx hk hk' h => rw [roots_append_cons_of_ne hk, roots_append_cons_of_ne hk']

theorem definitions_beside (h : Rearrangement w w') :
    Tree.definitions w'.beside = Tree.definitions w.beside := by
  cases h with
  | root _ _ _ _ _ hk h => rw [beside_append_cons_of_eq hk, beside_append_cons_of_eq hk, h]
  | stack _ _ _ hk hd =>
    rw [beside_append_cons_of_ne hk, beside_append, Tree.definitions_append,
      Tree.definitions_append, Tree.definitions_append, Tree.definitions_eq_nil hd]
    rfl
  | block _ _ _ _ _ _ hx hk hk' h =>
    rw [beside_append_cons_of_ne hk, beside_append_cons_of_ne hk', Tree.definitions_append,
      Tree.definitions_append, Tree.definitions_insertAt hx h, ← Tree.definitions_append,
      ← Tree.definitions_append]

theorem kept (h : Relation.EqvGen Rearrangement w w') :
    w.roots.Perm w'.roots ∧ Tree.definitions w'.beside = Tree.definitions w.beside := by
  induction h with
  | rel _ _ h => exact ⟨h.roots_perm, h.definitions_beside⟩
  | refl _ => exact ⟨.refl _, rfl⟩
  | symm _ _ _ ih => exact ⟨ih.1.symm, ih.2.symm⟩
  | trans _ _ _ _ _ ih ih' => exact ⟨ih.1.trans ih'.1, ih'.2.trans ih.2⟩

end Rearrangement

theorem kind_of_roots (h : w.roots = [root]) :
    root.block.kind = Catalog.rootKind ∧ root ∈ w.blocks := by
  have hm : root ∈ w.roots := by
    rw [h]
    exact List.mem_singleton_self root
  obtain ⟨hb, hk⟩ := List.mem_filter.1 hm
  exact ⟨eq_of_beq hk, hb⟩

theorem compile_of_roots (h : w.roots = [root]) :
    w.compile.result = (Tree.definitions w.beside).forM Tree.declared >>= fun _ =>
      ((Tree.diagram [root]).compile root []).result.map fun p =>
        { p with definitions := (({} : Definitions).after (deeds
          ((Tree.definitions w.beside).map (⟨.statement, ·⟩) ++ [⟨.root, root⟩]))).entries } := by
  obtain ⟨hk, hm⟩ := kind_of_roots h
  have hr : w.diagram.root w.blocks = .ok root := by
    rw [roots] at h
    rw [Diagram.root, h]
  rw [compile, Diagram.compileAll, hr]
  exact Tree.compile_beside hk hm fun t ht => (List.mem_filter.1 ht).1

theorem eraseDups_strayKeys (h : (Tree.definitions w.beside).forM Tree.declared = .ok ()) :
    w.strayKeys.eraseDups =
      ((deeds ((Tree.definitions w.beside).map (⟨.statement, ·⟩))).map Deed.key).eraseDups := by
  have hd : Tree.definitions w.beside = w.strays.map Tree.bare := by
    rw [Tree.definitions, strays, List.map_flatMap]
  have hk : ∀ t ∈ w.strays, Table.keys ((w.diagram.generator.statement t).entriesAfter {}) =
      ((deeds [⟨.statement, t⟩]).map Deed.key).eraseDups := by
    intro t ht
    obtain ⟨top, htop, hm⟩ := List.mem_flatMap.1 ht
    obtain ⟨hs, hdef⟩ := List.mem_filter.1 hm
    have hroom : ∀ u, some top = some u → Room w.blocks (w.diagram.bound + 1) u :=
      fun u hu => .generator (Option.some.inj hu ▸ (List.mem_filter.1 htop).1)
    apply Tree.keys_declared (Room.stackedOption hroom t hs) (of_decide_eq_true hdef)
    apply eq_ok_of_forM h
    rw [hd]
    exact List.mem_map_of_mem ht
  have hf : w.strayKeys =
      w.strays.flatMap fun t => ((deeds [⟨.statement, t⟩]).map Deed.key).eraseDups :=
    List.flatMap_congr hk
  rw [hf, eraseDups_flatMap, hd, List.map_map, deeds_map, List.map_flatMap]
  simp only [Function.comp_apply, Tree.deeds_bare]

/-- The keys of a program: first those that are entered beside the root, then the new ones of the
root. -/
theorem keys_definitions {p : Program} (hr : w.roots = [root]) (h : w.compile.result = .ok p) :
    ∃ q, (w.diagram.compile root []).result = .ok q ∧
      Table.keys p.definitions =
        w.strayKeys.eraseDups ++ (Table.keys q.definitions).filter (· ∉ w.strayKeys) := by
  rw [compile_of_roots hr] at h
  obtain ⟨⟨⟩, hs, h⟩ := bind_eq_ok.1 h
  obtain ⟨q, hq, rfl⟩ := map_eq_ok.1 h
  have hm := (kind_of_roots hr).2
  have hk := eraseDups_strayKeys hs
  have hd := Tree.compile_definitions (List.mem_singleton_self root) (List.forall_mem_nil _) hq
  refine ⟨q, ?_, ?_⟩
  · rw [← hq]
    exact congrArg Outcome.result (Tree.compile_alone hm)
  · dsimp only
    rw [Definitions.keys_of_deeds, deeds_append, List.map_append, eraseDups_append_eq, ← hk, hd,
      Definitions.keys_of_deeds]
    have hmem (k : String) : k ∈ w.strayKeys ↔
        k ∈ (deeds ((Tree.definitions w.beside).map (⟨.statement, ·⟩))).map Deed.key := by
      rw [← List.mem_eraseDups, hk, List.mem_eraseDups]
    simp only [hmem]
    rfl

/-- A workspace with one root comes to the same program, or to the same fault, wherever the root
lies, and with or without blocks beside it that define nothing. What is defined beside the root is
entered first, in the order of the stacks and of the blocks in them. -/
theorem compile_rearranged (hr : w.roots = [root]) :
    (∀ w', Relation.EqvGen Rearrangement w w' → w'.compile.result = w.compile.result) ∧
    ∀ p, w.compile.result = .ok p →
      ∃ q, (w.diagram.compile root []).result = .ok q ∧
        Table.keys p.definitions =
          w.strayKeys.eraseDups ++ (Table.keys q.definitions).filter (· ∉ w.strayKeys) := by
  constructor
  · intro w' h
    obtain ⟨hp, hd⟩ := Rearrangement.kept h
    have hr' : w'.roots = [root] := by
      rw [hr] at hp
      exact List.perm_singleton.1 hp.symm
    rw [compile_of_roots hr', compile_of_roots hr, hd]
  · intro p h
    exact keys_definitions hr h

end Workspace

/-- A root with a transition that depends on a constant. -/
def Tree.alert : Tree :=
  .node { kind := "ai_definition", fields := [("INITIAL_STATE", .text "idle")] } []
    [("GLOBAL_TRANSITIONS", some (.node
      { kind := "fsm_tactical_transition", fields := [("TARGET", .text "idle")] }
      [("CONDITION", some (.constant "late"))] [] none))] none

namespace Workspace

def tidy : Workspace := ⟨[.alert, .define "far" (.constant "near")]⟩

/-- The same behind a block that defines nothing, and with a second root below the definition. -/
def cluttered : Workspace :=
  ⟨[.null, (Tree.define "far" (.constant "near")).withNext (some .stateless), .alert]⟩

theorem cluttered_of_tidy : Relation.EqvGen Rearrangement tidy cluttered := by
  apply Relation.EqvGen.trans _ ⟨[.define "far" (.constant "near"), .alert]⟩
  · exact .rel _ _ (.root .alert [] [.define "far" (.constant "near")]
      [.define "far" (.constant "near")] [] rfl rfl)
  · apply Relation.EqvGen.trans _ ⟨[.null, .define "far" (.constant "near"), .alert]⟩
    · exact .rel _ _ (.stack .null [] [.define "far" (.constant "near"), .alert] (by decide)
        (by decide))
    · exact .rel _ _ (.block .stateless (.define "far" (.constant "near")) _ 1 [.null] [.alert]
        (by decide) (by decide) (by decide) rfl)

theorem compile_cluttered :
    tidy.roots = [.alert] ∧ Relation.EqvGen Rearrangement tidy cluttered ∧
    cluttered.compile.result = tidy.compile.result ∧
    ∃ p, tidy.compile.result = .ok p ∧ ∃ q, (tidy.diagram.compile .alert []).result = .ok q ∧
      Table.keys q.definitions = ["late"] ∧
      Table.keys p.definitions =
        tidy.strayKeys.eraseDups ++ (Table.keys q.definitions).filter (· ∉ tidy.strayKeys) ∧
      tidy.strayKeys = ["near", "far"] := by
  have hr : tidy.roots = [.alert] := rfl
  obtain ⟨hc, hk⟩ := compile_rearranged hr
  obtain ⟨p, hp⟩ : ∃ p, tidy.compile.result = .ok p := ⟨_, rfl⟩
  obtain ⟨q, hq, hkeys⟩ := hk p hp
  have hl : (tidy.diagram.compile .alert []).result.map (Table.keys ·.definitions) =
      .ok ["late"] := rfl
  rw [hq] at hl
  exact ⟨hr, cluttered_of_tidy, hc _ cluttered_of_tidy, p, hp, q, hq, Except.ok.inj hl, hkeys,
    rfl⟩

end Workspace

end BlockMachine

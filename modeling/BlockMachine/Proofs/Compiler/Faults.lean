import BlockMachine.Proofs.Compiler.Detection

namespace BlockMachine

open Position (ValueFails StackFails)

namespace Room

variable {ts : List Tree} {n : Nat} {t : Tree}

theorem succ (h : Room ts n t) : Room ts (n + 1) t := ⟨Nat.le_succ_of_le h.depth, h.bound⟩

end Room

namespace Detector

variable {ts : List Tree} {n : Nat} {g : Generator Tree} {t : Tree}

theorem expression_succ (h : Detector ts n (.ofDepth (Tree.diagram ts) n))
    (ht : Room ts (n + 1) t) :
    ((Generator.ofDepth (Tree.diagram ts) (n + 1)).expression t).Detects
      (Position.mk .value t).Fails := by
  rw [Generator.expression_succ, Tree.block_diagram]
  cases hk : ValueRule.ofKind? t.block.kind with
  | none =>
    have hn : t.block.kind ∉ Place.value.kinds := Table.get?_eq_none_iff.1 hk
    exact .fail ((Position.fails_of_misplaced hn).2 rfl)
  | some rule =>
    have hm : t.block.kind ∈ Place.value.kinds := List.mem_map_of_mem (Table.mem_of_get? hk)
    have hs := ValueRule.suits_ofKind? hk
    have hb : t.block.readStacks = [] := by
      rw [Block.readStacks, if_neg hs.branchless, hs.stackless]
    apply Compile.Detects.visiting
    cases hr : rule.template t.block with
    | error e =>
      exact .fail ((Position.fails_of_placed hm).2 (.inl (ValueRule.template_breaks hk hr)))
    | ok template =>
      have hv := ValueRule.template_renders hk hr
      apply (h.fill ht.held template).congr
      intro f
      rw [Position.fails_of_placed hm, hv.faults, ← hv.sockets, hb]
      simp [Place.inner]

theorem statement_succ (h : Detector ts n (.ofDepth (Tree.diagram ts) n))
    (ht : Room ts (n + 1) t) :
    ((Generator.ofDepth (Tree.diagram ts) (n + 1)).statement t).Detects
      (Position.mk .statement t).Fails := by
  rw [Generator.statement_succ, Tree.block_diagram]
  cases hk : StatementRule.ofKind? t.block.kind with
  | none =>
    have hn : t.block.kind ∉ Place.statement.kinds := Table.get?_eq_none_iff.1 hk
    exact .fail ((Position.fails_of_misplaced hn).2 rfl)
  | some rule =>
    apply Compile.Detects.visiting
    exact h.run ht.held hk

theorem ofDepth (ts : List Tree) (n : Nat) : Detector ts n (.ofDepth (Tree.diagram ts) n) := by
  have hd := Generator.diagram_ofDepth (Tree.diagram ts)
  induction n with
  | zero =>
    have hz {t : Tree} (ht : Room ts 0 t) : False := Nat.not_le.2 t.size_pos ht.depth
    exact ⟨hd 0, fun ht => (hz ht).elim, fun ht => (hz ht).elim⟩
  | succ n ih => exact ⟨hd (n + 1), ih.expression_succ, ih.statement_succ⟩

theorem stateName (wrapper : Site) (u : Tree) :
    (Compile.lift (if u.block.kind = Catalog.stateReferenceKind then u.block.fieldText "STATE_NAME"
      else if u.block.kind = Catalog.textKind then .ok (u.block.fieldTextD "TEXT" "")
      else .error (.rule (.notAStateName wrapper u.block.site))) : Compile Tree String).Detects
      (Position.mk (.stateName wrapper) u).Fails := by
  split
  · rename_i hr
    apply (Compile.Detects.fieldText u.block "STATE_NAME").congr
    intro f
    rw [(Plain.stateReference hr).fails_iff (by rw [hr]; exact List.mem_cons_self)]
    simp
  · rename_i hr
    split
    · rename_i hx
      apply (Compile.Detects.pure _).congr
      intro f
      rw [(Plain.text hx).fails_iff (by rw [hx]; exact List.mem_cons_of_mem _ List.mem_cons_self)]
      simp
    · rename_i hx
      apply Compile.Detects.fail
      rw [Position.fails_of_misplaced (by simp [Place.kinds, hr, hx])]
      rfl

theorem wrappedName (d : Diagram Tree) (hd : d.block = Tree.block)
    (hk : t.block.kind = Catalog.stateReferenceStatementKind) :
    (Compile.lift (d.wrappedName t.block) : Compile Tree String).Detects
      (Position.mk .interruption t).Fails := by
  have hm : t.block.kind ∈ Place.interruption.kinds := by
    rw [hk]
    decide
  have hw (f : Fault) : (Position.mk .interruption t).Fails f ↔
      ∃ u, t.block.value? "STATE" = some u ∧
        (Position.mk (.stateName t.block.site) u).Fails f := by
    rw [(Plain.stateReferenceStatement hk).fails_iff hm]
    simp [Place.inner, ValueFails]
  rw [Diagram.wrappedName]
  cases hv : t.block.value? "STATE" with
  | none =>
    apply (Compile.Detects.pure "").congr
    intro f
    rw [hw, hv]
    simp
  | some u =>
    dsimp only
    rw [hd]
    apply (stateName t.block.site u).congr
    intro f
    rw [hw, hv]
    simp

theorem interruption (d : Diagram Tree) (hd : d.block = Tree.block) (t : Tree) :
    (Compile.lift (d.interruption t.block) : Compile Tree String).Detects
      (Position.mk .interruption t).Fails := by
  rw [Diagram.interruption]
  split
  · rename_i hr
    apply (Compile.Detects.fieldText t.block "STATE_NAME").congr
    intro f
    rw [(Plain.stateReference hr).fails_iff (by rw [hr]; decide)]
    simp
  · rename_i hr
    split
    · rename_i hs
      exact wrappedName d hd hs
    · rename_i hs
      apply Compile.Detects.fail
      rw [Position.fails_of_misplaced (by simp [Place.kinds, hr, hs])]
      rfl

theorem interruptibleBy (h : Detector ts n g) (hb : Contract.Held (Room ts n) t.block) :
    (Compile.lift (g.diagram.interruptibleBy t.block) : Compile Tree _).Detects fun f =>
      ∃ u ∈ Tree.stackedOption (t.block.head? "INTERRUPTIBLE_BY"),
        (Position.mk .interruption u).Fails f := by
  have hd : g.diagram.block = Tree.block := by
    rw [h.diagram]
    rfl
  rw [Diagram.interruptibleBy, h.stack fun u hu => hb.head? hu]
  change (Compile.lift (List.mapM _ _ >>= _)).Detects _
  rw [Compile.lift_bind, Compile.lift_mapM]
  apply Compile.Detects.followed
  · apply Compile.Detects.mapM
    intro u _
    rw [hd]
    exact interruption _ hd u
  · intro names
    exact .pure _

theorem localBlock (h : Detector ts n g) (hb : Contract.Held (Room ts n) t.block) :
    (g.localTransition t.block).Detects (Position.mk .localTransition t).Fails := by
  by_cases hk : t.block.kind = Catalog.localTransitionKind
  · apply (h.localTransition hb hk).congr
    intro f
    rw [(Plain.localTransition hk).fails_iff (by rw [hk]; decide)]
    simp [Place.inner]
  · rw [Generator.localTransition, if_pos hk]
    apply Compile.Detects.fail
    rw [Position.fails_of_misplaced (by simp [Place.kinds, hk])]
    rfl

theorem transitions (h : Detector ts n g) (hb : Contract.Held (Room ts n) t.block) :
    (g.collect (t.block.head? "TRANSITIONS") g.localTransition).Detects fun f =>
      ∃ u ∈ Tree.stackedOption (t.block.head? "TRANSITIONS"),
        (Position.mk .localTransition u).Fails f := by
  have ht : ∀ u, t.block.head? "TRANSITIONS" = some u → Room ts n u := fun u hu => hb.head? hu
  rw [Generator.collect, Watch.collect, h.stack ht]
  apply Compile.Detects.mapM
  intro u hu
  rw [h.block, h.diagram]
  exact (h.localBlock (Room.stackedOption ht u hu).succ.held).visiting

theorem state (h : Detector ts n g) (hb : Contract.Held (Room ts n) t.block) :
    (g.state t.block).Detects (Position.mk .state t).Fails := by
  rw [Generator.state, Watch.state]
  by_cases hk : t.block.kind = Catalog.stateKind
  · have hp := Plain.state hk
    have hn : t.block.kind ≠ "action_sequence" := hp.ne_sequence (by decide)
    have hs (socket : String) :=
      h.sequence fun u (hu : t.block.head? socket = some u) => hb.head? hu
    rw [if_neg (not_not.2 hk)]
    have hx := (Compile.Detects.fieldText t.block "STATE_NAME").bind fun name =>
      (Compile.Detects.log (.compilingState name t.block.site)).after fun _ =>
      (hs "ON_ENTER").bind fun onEnter => (hs "ON_EXECUTE").bind fun onExecute =>
      (hs "ON_EXIT").bind fun onExit => (h.transitions hb).bind fun transitions =>
      (h.interruptibleBy hb).map fun interruptibleBy =>
        ({ name, onEnter, onExecute, onExit, transitions, interruptibleBy } : State)
    apply hx.congr
    intro f
    rw [hp.fails_iff (by rw [hk]; decide)]
    simp [StackFails, Tree.readStack_of_ne hn]
  · rw [if_pos hk]
    apply Compile.Detects.fail
    rw [Position.fails_of_misplaced (by simp [Place.kinds, hk])]
    rfl

theorem globalBlock (h : Detector ts n g) (ht : Room ts n t) :
    (g.globalBlock t).Detects (Position.mk .globalTransition t).Fails := by
  rw [Generator.globalBlock, h.block]
  have hb := ht.succ.held
  have hx (tier : Tier) : (g.globalTransition t.block tier).Detects fun f =>
      (t.block.field? "TARGET" = none ∧ f = t.block.missing "TARGET") ∨
      ValueFails t .value "CONDITION" f := by
    apply (Compile.Detects.fieldText t.block "TARGET").bind
    intro target
    exact (h.value (fun u hu => hb.value? hu) _ _).map _
  by_cases hk : t.block.kind ∈ Place.globalTransition.kinds
  · have hg : Generator.globalTier? t.block.kind ≠ none :=
      fun hn => Generator.globalTier?_eq_none_iff.1 hn hk
    obtain ⟨tier, hg⟩ := Option.ne_none_iff_exists'.1 hg
    rw [hg]
    apply (hx tier).congr
    intro f
    rw [(Plain.globalTransition hk).fails_iff hk]
    simp [Place.inner]
  · rw [Generator.globalTier?_eq_none_iff.2 hk]
    apply Compile.Detects.fail
    rw [Position.fails_of_misplaced hk]
    rfl

theorem preambleBlock (h : Detector ts n g) (ht : Room ts n t) :
    (g.preambleBlock t).Detects fun f =>
      t.block.kind ∈ Catalog.definitionKinds ∧ (Position.mk .statement t).Fails f := by
  rw [Generator.preambleBlock, h.block]
  split
  · rename_i hk
    apply ((h.statement ht).followed fun _ => .pure ()).congr
    intro f
    simp [List.contains_iff_mem.1 hk]
  · rename_i hk
    apply (Compile.Detects.log _).congr
    intro f
    simp [mt List.contains_iff_mem.2 hk]

theorem preamble (h : Detector ts n g) {tops : List Tree} (ht : ∀ t ∈ tops, Room ts n t) :
    (g.preamble tops).Detects fun f => ∃ top ∈ tops, ∃ u ∈ top.stacked,
      u.block.kind ∈ Catalog.definitionKinds ∧ (Position.mk .statement u).Fails f := by
  induction tops with
  | nil =>
    apply (Compile.Detects.pure ()).congr
    intro f
    simp
  | cons top tops ih =>
    obtain ⟨htop, htops⟩ := List.forall_mem_cons.1 ht
    have hs : ∀ t, some top = some t → Room ts n t := fun t he => Option.some.inj he ▸ htop
    rw [Generator.preamble, h.stack hs]
    have hx := Compile.Detects.forM fun u hu => h.preambleBlock (Room.stackedOption hs u hu)
    apply (hx.bind fun _ => ih htops).congr
    intro f
    simp [Tree.stackedOption]

theorem statesFrom (h : Detector ts n g) (states : Table State) {us : List Tree}
    (hu : ∀ u ∈ us, Room ts n u) :
    (g.statesFrom states us).Detects fun f => ∃ u ∈ us, (Position.mk .state u).Fails f := by
  induction us generalizing states with
  | nil =>
    apply (Compile.Detects.pure states).congr
    intro f
    simp
  | cons u us ih =>
    obtain ⟨hu, hus⟩ := List.forall_mem_cons.1 hu
    rw [Generator.statesFrom, Watch.statesFrom, h.block]
    have hx (state : State) : (do
        if Table.contains states state.name then
          Compile.log (.duplicateState state.name u.block.site)
        g.statesFrom (Table.put states state.name state) us : Compile Tree _).Detects
        fun f => ∃ u ∈ us, (Position.mk .state u).Fails f := by
      split
      · exact (Compile.Detects.log _).after fun _ => ih _ hus
      · exact ih _ hus
    apply ((h.state hu.succ.held).bind hx).congr
    intro f
    simp

theorem program (h : Detector ts n g) {root : Tree} {beside : List Tree} (hr : Room ts n root)
    (hb : ∀ t ∈ beside, Room ts n t) :
    (g.program root beside).Concludes fun f => ∃ p ∈ Position.starts root beside, p.Fails f := by
  rw [Generator.program, Watch.program, h.block]
  by_cases hk : root.block.kind = Catalog.rootKind
  · have hp := Plain.root hk
    have hn : root.block.kind ≠ "action_sequence" := hp.ne_sequence (by decide)
    have hh (socket : String) : ∀ u, root.block.head? socket = some u → Room ts n u :=
      fun u hu => hr.succ.held.head? hu
    rw [if_neg (not_not.2 hk), h.stack (hh "STATES"), h.stack (hh "GLOBAL_TRANSITIONS")]
    apply Compile.Concludes.congr
    · apply (h.preamble hb).concludes
      intro _
      apply (Compile.Detects.fieldText root.block "INITIAL_STATE").concludes
      intro initialState
      apply (h.statesFrom [] (Room.stackedOption (hh "STATES"))).concludes
      intro states
      apply (Compile.Detects.mapM fun u hu =>
        h.globalBlock (Room.stackedOption (hh "GLOBAL_TRANSITIONS") u hu)).concludes
      intro transitions
      apply Compile.Concludes.drain
      intro definitions c
      exact .ok trivial fun _ => id
    · intro f
      have hr : (Position.mk .root root).Fails f ↔
          (root.block.field? "INITIAL_STATE" = none ∧ f = root.block.missing "INITIAL_STATE") ∨
          (∃ u ∈ Tree.stackedOption (root.block.head? "STATES"),
            (Position.mk .state u).Fails f) ∨
          ∃ u ∈ Tree.stackedOption (root.block.head? "GLOBAL_TRANSITIONS"),
            (Position.mk .globalTransition u).Fails f := by
        rw [hp.fails_iff (by rw [hk]; decide)]
        simp [StackFails, Tree.readStack_of_ne hn]
      rw [Position.exists_starts_iff, hr, or_comm]
      simp only [or_false]
  · rw [if_pos hk]
    intro c hc
    have hr : root.block.kind ∉ Place.root.kinds := by simp [Place.kinds, hk]
    exact .error (Position.exists_starts_iff.2 (.inl ((Position.fails_of_misplaced hr).2 rfl)))

end Detector

namespace Tree

/-- Compiling comes to a machine if nothing fails from where the program is read, and otherwise to
one of the faults. -/
theorem compile_detects {ts : List Tree} {root : Tree} {beside : List Tree} (hr : root ∈ ts)
    (hb : ∀ t ∈ beside, t ∈ ts) :
    let result := ((diagram ts).compile root beside).result
    ((∃ p, result = .ok p) ↔ ∀ f, ¬ ∃ p ∈ Position.starts root beside, p.Fails f) ∧
    ∀ f, result = .error f → ∃ p ∈ Position.starts root beside, p.Fails f := by
  have hroom {t : Tree} (ht : t ∈ ts) : Room ts ((diagram ts).bound + 1) t :=
    ⟨Nat.le_succ_of_le (size_le_bound ht), size_le_bound ht⟩
  have hd := Detector.ofDepth ts ((diagram ts).bound + 1)
  apply Compile.Concludes.start
  exact hd.program (hroom hr) fun t ht => hroom (hb t ht)

theorem exists_concerns_of_compile {ts : List Tree} {root : Tree} {beside : List Tree} {f : Fault}
    (hr : root ∈ ts) (hb : ∀ t ∈ beside, t ∈ ts)
    (h : ((diagram ts).compile root beside).result = .error f) :
    ∃ t : Tree, t.block.Concerns f := by
  obtain ⟨p, -, q, -, hq⟩ := (compile_detects hr hb).2 f h
  exact ⟨q.tree, Block.Faulty.concerns hq⟩

/-- A program comes to a machine if and only if no position that is read in it is faulty. When it
does not, a position that is read has the fault, and a fault that is reported is reported with the
id and the kind of its block. -/
theorem compile_iff_faultless (root : Tree) (beside : List Tree) :
    ((∃ p, ((diagram (root :: beside)).compile root beside).result = .ok p) ↔
      ∀ q, Position.Read root beside q → ∀ f, ¬ q.Faulty f) ∧
    ∀ f, ((diagram (root :: beside)).compile root beside).result = .error f →
      ∃ q, Position.Read root beside q ∧ q.Faulty f ∧
        ∀ report, f.report? = some report →
          report.id = .ofText? q.tree.label.id ∧ report.kind = .str q.tree.label.kind := by
  obtain ⟨hok, herror⟩ :=
    compile_detects List.mem_cons_self fun t (ht : t ∈ beside) => List.mem_cons_of_mem root ht
  constructor
  · rw [hok]
    simp only [← Position.exists_read_iff]
    constructor
    · intro h q hq f hf
      exact h f ⟨q, hq, hf⟩
    · rintro h f ⟨q, hq, hf⟩
      exact h q hq f hf
  · intro f hf
    obtain ⟨q, hq, hf⟩ := Position.exists_read_iff.2 (herror f hf)
    refine ⟨q, hq, hf, ?_⟩
    intro report hr
    have hreport := (Block.Faulty.concerns hf).report hr
    rw [toLabel_block] at hreport
    exact hreport

/-- A state whose transition has no target. The step without a key stands behind a return. -/
def untargeted : Tree :=
  .node { kind := "ai_definition", fields := [("INITIAL_STATE", .text "idle")] } []
    [("STATES", some (.node { kind := "fsm_state", fields := [("STATE_NAME", .text "idle")] } []
      [("ON_EXECUTE", some (.node { kind := "action_sequence" } []
        [("DO", some (.node
          { kind := "fsm_return_state", fields := [("STATE_NAME", .text "idle")] } [] []
          (some (.node { kind := "memory_set" } [] [] none))))] none)),
      ("TRANSITIONS", some (.node { kind := "fsm_transition", id := some "t" } [] [] none))]
      none))] none

theorem untargeted_faulty :
    ((diagram [untargeted]).compile untargeted []).result =
      .error (.rule (.missingField "TARGET" ⟨some "t", "fsm_transition"⟩)) ∧
    ∃ q, Position.Read untargeted [] q ∧
      q.Faulty (.rule (.missingField "TARGET" ⟨some "t", "fsm_transition"⟩)) ∧
      q.tree.label.id = some "t" := by
  have hr : ((diagram [untargeted]).compile untargeted []).result =
      .error (.rule (.missingField "TARGET" ⟨some "t", "fsm_transition"⟩)) := rfl
  obtain ⟨q, hq, hf, hreport⟩ := (compile_iff_faultless untargeted []).2 _ hr
  refine ⟨hr, q, hq, hf, ?_⟩
  have hid := (hreport _ rfl).1
  cases hi : q.tree.label.id with
  | none =>
    rw [hi] at hid
    cases hid
  | some id =>
    rw [hi] at hid
    cases hid
    rfl

end Tree

end BlockMachine

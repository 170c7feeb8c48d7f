import BlockMachine.Proofs.Compiler.Inserting
import BlockMachine.Proofs.Compiler.Tiers
import BlockMachine.Proofs.Machine.Tick

namespace BlockMachine

namespace Tree

variable {ts us beside : List Tree} {root x : Tree} {target : String} {p : Program} {i state : Nat}

theorem opening_moved {root' : Tree} {opened : String × Table State} {c c' : Context Tree}
    {Q : Table State → Table State → Prop} (hl : root'.block.toLabel = root.block.toLabel)
    (hroot : root ∈ ts) (hroot' : root' ∈ us) (hb : ∀ t ∈ beside, t ∈ ts ∧ t ∈ us)
    (hs : ∀ {c out c'}, (diagram ts).generator.statesFrom []
        (stackedOption (root.block.head? "STATES")) c = .ok out c' →
      ∃ out', (diagram us).generator.statesFrom []
        (stackedOption (root'.block.head? "STATES")) c = .ok out' c' ∧ Q out out')
    (h : (diagram ts).generator.opening root beside c = .ok opened c') :
    ∃ states, (diagram us).generator.opening root' beside c = .ok (opened.1, states) c' ∧
      Q opened.2 states := by
  have hstack {vs : List Tree} {t : Tree} (ht : t ∈ vs) (socket : String) :
      (diagram vs).stack (t.block.head? socket) = .ok (stackedOption (t.block.head? socket)) :=
    stack_eq fun u hu => ((Room.generator ht).head? hu).bound
  have hp : (diagram us).generator.preamble beside = (diagram ts).generator.preamble beside :=
    Room.preamble_eq fun t ht => ⟨Room.generator (hb t ht).2, Room.generator (hb t ht).1⟩
  have hlabel : ((diagram us).generator.diagram.block root').toLabel =
      ((diagram ts).generator.diagram.block root).toLabel := hl
  refine Generator.opening_of_states hlabel hp ?_ h
  intro rs hr
  cases (hstack hroot "STATES").symm.trans hr
  exact ⟨_, hstack hroot' "STATES", hs⟩

theorem compile_insertGlobal {tier : Tier} (hx : x.Conditionless target)
    (ht : Generator.globalTier? x.block.kind = some tier) (hroot : root ∈ ts)
    (hroot' : x.insertGlobal i root ∈ us) (hb : ∀ t ∈ beside, t ∈ ts ∧ t ∈ us)
    (h : ((diagram ts).compile root beside).result = .ok p) :
    ∃ opened transitions definitions, p = Generator.assembled opened transitions definitions ∧
      transitions.map (fun t => some t.tier) =
        (stackedOption (root.block.head? "GLOBAL_TRANSITIONS")).map
          (fun r => Generator.globalTier? r.block.kind) ∧
      ((diagram us).compile (x.insertGlobal i root) beside).result =
        .ok (Generator.assembled opened (insertedAt (x.globalLeap target tier) i transitions)
          definitions) := by
  obtain ⟨opened, rs, transitions, c, c', c₁, ho, hr, hm, hc⟩ := Diagram.compile_eq_ok_iff.1 h
  have hroom := Room.generator hroot
  have hroom' := Room.generator hroot'
  have htop : (x.insertGlobal i root).block.head? "GLOBAL_TRANSITIONS" =
      x.insertAt i (root.block.head? "GLOBAL_TRANSITIONS") := head?_changeStack_self _ _ _
  have hstates : (x.insertGlobal i root).block.head? "STATES" = root.block.head? "STATES" :=
    head?_changeStack_of_ne _ _ (by decide)
  rw [block_diagram, stack_eq fun t ht => (hroom.head? ht).bound] at hr
  cases hr
  have hopen : (diagram us).generator.opening (x.insertGlobal i root) beside {} = .ok opened c := by
    have hs (t : Tree) (ht : root.block.head? "STATES" = some t) :
        Room us ((diagram us).bound + 1) t ∧ Room ts ((diagram ts).bound + 1) t :=
      ⟨hroom'.head? (hstates.trans ht), hroom.head? ht⟩
    have he : (diagram us).generator.statesFrom [] (stackedOption (root.block.head? "STATES")) =
        (diagram ts).generator.statesFrom [] (stackedOption (root.block.head? "STATES")) :=
      Room.statesFrom_eq [] fun t ht => ⟨Room.stackedOption (fun u hu => (hs u hu).1) t ht,
        Room.stackedOption (fun u hu => (hs u hu).2) t ht⟩
    have hl : (x.insertGlobal i root).block.toLabel = root.block.toLabel :=
      toLabel_changeStack _ _ root
    obtain ⟨states, ho, rfl⟩ := opening_moved (Q := fun s s' => s' = s) hl hroot hroot' hb
      (fun {c out c'} hrun => ⟨out, by rw [hstates, he]; exact hrun, rfl⟩) ho
    exact ho
  have hglobals : (stackedOption (x.insertAt i (root.block.head? "GLOBAL_TRANSITIONS"))).mapM
      (diagram us).generator.globalBlock c =
        .ok (insertedAt (x.globalLeap target tier) i transitions) c' := by
    refine Room.insertAt (fun t ht => hroom.head? ht) (fun t ht => hroom'.head? (htop.trans ht)) ?_
      (fun next => hx.globalBlock us _ next ht) hm
    intro t next h h'
    exact Room.globalBlock_moved h h'
  obtain ⟨rfl, -⟩ := Generator.closing_eq_ok hc
  obtain ⟨c₂, hc'⟩ := Generator.closing_run hc (x.insertGlobal i root).block.site opened
    (insertedAt (x.globalLeap target tier) i transitions)
  refine ⟨opened, transitions, c'.definitions.entries, rfl, ?_, ?_⟩
  · obtain ⟨qs, -, hq, hrs, rfl⟩ := Compile.mapM_eq_ok hm
    rw [← hrs, List.map_map, List.map_map]
    apply List.map_congr_left
    intro q hm
    obtain ⟨tier, hk, hg⟩ := Generator.takesGlobal_of_runs (hq q hm)
    exact (congrArg some hg.tier).trans hk.symm
  · refine Diagram.compile_eq_ok_iff.2 ⟨opened, _, _, c, c', c₂, hopen, ?_, hglobals, hc'⟩
    rw [block_diagram, htop]
    exact stack_eq fun t ht => (hroom'.head? (htop.trans ht)).bound

theorem states_insertLocal (hx : x.Conditionless target)
    (hk : x.block.kind = Catalog.localTransitionKind) (hroot : root ∈ ts)
    (hroot' : x.insertLocal state i root ∈ us) {c c' : Context Tree} {out : Table State}
    (h : (diagram ts).generator.statesFrom [] (stackedOption (root.block.head? "STATES")) c =
      .ok out c') :
    ∃ out', (diagram us).generator.statesFrom []
        (stackedOption ((x.insertLocal state i root).block.head? "STATES")) c = .ok out' c' ∧
      Gained (localLeap target) out out' := by
  have hroom := Room.generator hroot
  have hroom' := Room.generator hroot'
  have hstates : (x.insertLocal state i root).block.head? "STATES" =
      changeAt (changeStack "TRANSITIONS" (x.insertAt i)) state (root.block.head? "STATES") :=
    head?_changeStack_self _ _ _
  refine Generator.statesFrom_gains ?_ .nil h
  rw [hstates]
  refine (forall₂_and (stackedOption_changeAt _ state _)
    (Room.stackedOption fun u hu => hroom.head? hu)
    (Room.stackedOption fun u hu => hroom'.head? (hstates.trans hu))).imp ?_
  rintro t _ ⟨ht, ht', next, rfl | rfl⟩
  · refine ⟨?_, ?_⟩
    · cases t
      rfl
    · intro c s c' hs
      refine ⟨s, ?_, .inl rfl⟩
      rw [← hs]
      exact congrFun (Room.state_moved ht ht') c
  · refine ⟨?_, ?_⟩
    · cases t
      rfl
    · intro c s c' hs
      exact ⟨_, state_insertAt hx hk ht ht' hs, .inr ⟨i, rfl⟩⟩

theorem compile_insertLocal (hx : x.Conditionless target)
    (hk : x.block.kind = Catalog.localTransitionKind) (hroot : root ∈ ts)
    (hroot' : x.insertLocal state i root ∈ us) (hb : ∀ t ∈ beside, t ∈ ts ∧ t ∈ us)
    (h : ((diagram ts).compile root beside).result = .ok p) :
    ∃ p', ((diagram us).compile (x.insertLocal state i root) beside).result = .ok p' ∧
      p'.emergency = p.emergency ∧ p'.tactical = p.tactical ∧
      Gained (localLeap target) p.states p'.states := by
  obtain ⟨opened, rs, transitions, c, c', c₁, ho, hr, hm, hc⟩ := Diagram.compile_eq_ok_iff.1 h
  have hroom := Room.generator hroot
  have hroom' := Room.generator hroot'
  have htop : (x.insertLocal state i root).block.head? "GLOBAL_TRANSITIONS" =
      root.block.head? "GLOBAL_TRANSITIONS" := head?_changeStack_of_ne _ _ (by decide)
  have hl : (x.insertLocal state i root).block.toLabel = root.block.toLabel :=
    toLabel_changeStack _ _ root
  rw [block_diagram, stack_eq fun t ht => (hroom.head? ht).bound] at hr
  cases hr
  obtain ⟨states, hopen, hgained⟩ := opening_moved hl hroot hroot' hb
    (states_insertLocal hx hk hroot hroot') ho
  have hglobals : (stackedOption (root.block.head? "GLOBAL_TRANSITIONS")).mapM
      (diagram us).generator.globalBlock c = .ok transitions c' := by
    rw [← hm]
    refine congrFun (Compile.mapM_congr (List.forall₂_same.2 fun t ht => ?_)) c
    exact Room.globalBlock_eq (Room.stackedOption (fun u hu => hroom'.head? (htop.trans hu)) t ht)
      (Room.stackedOption (fun u hu => hroom.head? hu) t ht)
  obtain ⟨rfl, -⟩ := Generator.closing_eq_ok hc
  obtain ⟨c₂, hc'⟩ := Generator.closing_run hc (x.insertLocal state i root).block.site
    (opened.1, states) transitions
  refine ⟨_, Diagram.compile_eq_ok_iff.2 ⟨_, _, _, c, c', c₂, hopen, ?_, hglobals, hc'⟩,
    rfl, rfl, hgained⟩
  rw [block_diagram, htop]
  exact stack_eq fun t ht => (hroom'.head? (htop.trans ht)).bound

end Tree

section

variable {σ : Type} {p p' : Program} {target : String} (world : World σ) (active : String) (s : σ)

theorem tick_of_gained (he : p'.emergency = p.emergency) (ht : p'.tactical = p.tactical)
    (hs : Gained (Tree.localLeap target) p.states p'.states) :
    p'.tick world active s = p.tick world active s := by
  have hinert (s : σ) : ∃ v, Script.call world (Tree.localLeap target).function s = (v, s) ∧
      v.truthy = false := ⟨_, call_false world s, rfl⟩
  have hg := hs.get? active
  rw [Program.tick, Program.tick, Program.candidates, Program.candidates, he, ht]
  generalize Table.get? p.states active = x at hg ⊢
  generalize Table.get? p'.states active = y at hg ⊢
  cases hg with
  | none => rfl
  | @some u u' hu =>
    rcases hu with rfl | ⟨i, rfl⟩
    · rfl
    · simp only [Option.map_some, Option.getD_some, insertedAt]
      rw [← List.append_assoc, firstTarget_insert hinert, List.append_assoc, List.take_append_drop]

theorem filter_insertedAt {α : Type} (q : α → Bool) (a : α) (i : Nat) (as : List α) :
    (insertedAt a i as).filter q =
      if q a then insertedAt a ((as.take i).countP q) (as.filter q) else as.filter q := by
  have hs : as.filter q = (as.take i).filter q ++ (as.drop i).filter q := by
    rw [← List.filter_append, List.take_append_drop]
  rw [insertedAt, List.filter_append, List.filter_cons, hs]
  split
  · rw [insertedAt, List.take_left' List.countP_eq_length_filter.symm,
      List.drop_left' List.countP_eq_length_filter.symm]
  · rfl

end

/-- The transitions that are tried before all but the first `n` of a global tier. -/
def Program.triedBefore (p : Program) (tier : Tier) (n : Nat) : List Transition :=
  if tier = .emergency then p.emergency.take n else p.emergency ++ p.tactical.take n

section

variable {σ : Type} {opened : String × Table State} {transitions : List Transition}
  {definitions : Table String} (world : World σ) (active : String) (s : σ)

theorem candidates_insertedAt {tier : Tier} (ht : tier ≠ .ofState) (a : Transition)
    (ha : a.tier = tier) (i : Nat) :
    let p := Generator.assembled opened transitions definitions
    let before := p.triedBefore tier ((transitions.take i).countP (·.tier = tier))
    ∃ after, (Generator.assembled opened (insertedAt a i transitions) definitions).candidates
        active = before ++ a :: after ∧ p.candidates active = before ++ after := by
  intro p before
  have hf (t : Tier) : (insertedAt a i transitions).filter (·.tier = t) =
      if tier = t then insertedAt a ((transitions.take i).countP (·.tier = t))
        (transitions.filter (·.tier = t))
      else transitions.filter (·.tier = t) := by
    rw [filter_insertedAt, ← ha]
    simp only [decide_eq_true_eq]
  have hc (ts : List Transition) :
      (Generator.assembled opened ts definitions).candidates active =
        ts.filter (·.tier = .emergency) ++ ts.filter (·.tier = .tactical) ++
          ((Table.get? opened.2 active).map (·.transitions)).getD [] := rfl
  rw [hc, hf, hf, hc]
  cases tier with
  | ofState => exact absurd rfl ht
  | emergency =>
    refine ⟨p.emergency.drop ((transitions.take i).countP (·.tier = .emergency)) ++
      p.tactical ++ ((Table.get? opened.2 active).map (·.transitions)).getD [], ?_, ?_⟩
    · rw [if_pos rfl, if_neg (by decide), insertedAt]
      simp only [List.append_assoc, List.cons_append]
      rfl
    · rw [← List.append_assoc, ← List.append_assoc]
      congr 2
      exact (List.take_append_drop _ _).symm
  | tactical =>
    have hb : before = p.emergency ++
        p.tactical.take ((transitions.take i).countP (·.tier = .tactical)) := rfl
    refine ⟨p.tactical.drop ((transitions.take i).countP (·.tier = .tactical)) ++
      ((Table.get? opened.2 active).map (·.transitions)).getD [], ?_, ?_⟩
    · rw [if_pos rfl, if_neg (by decide), insertedAt, hb]
      simp only [List.append_assoc, List.cons_append]
      rfl
    · rw [hb, ← List.append_assoc, List.append_assoc p.emergency, List.take_append_drop]
      rfl

theorem tick_insertedAt {tier : Tier} (ht : tier ≠ .ofState) (x : Tree) (target : String)
    (i : Nat) :
    let p := Generator.assembled opened transitions definitions
    let before := p.triedBefore tier ((transitions.take i).countP (·.tier = tier))
    (Generator.assembled opened (insertedAt (x.globalLeap target tier) i transitions)
        definitions).tick world active s =
      if (firstTarget world before s).1.isSome then p.tick world active s
      else (some target, (firstTarget world before s).2) := by
  intro p before
  have hwins (s : σ) : ∃ v, Script.call world (x.globalLeap target tier).function s = (v, s) ∧
      v.truthy = true := by
    refine ⟨.function, ?_, rfl⟩
    rw [Transition.function, Transition.parameters, if_neg (show (x.globalLeap target tier).tier ≠
      .ofState from ht)]
    exact call_arrow world s
  obtain ⟨after, hp', hp⟩ := candidates_insertedAt active ht (x.globalLeap target tier) rfl i
  rw [Program.tick, Program.tick, hp', hp]
  exact firstTarget_insert_function hwins before after s

end

theorem countP_take_of_map {transitions : List Transition} {rs : List Tree}
    (h : transitions.map (fun t => some t.tier) =
      rs.map fun r => Generator.globalTier? r.block.kind) (i : Nat) (tier : Tier) :
    ((rs.take i).countP fun r => Generator.globalTier? r.block.kind = some tier) =
      (transitions.take i).countP (·.tier = tier) := by
  have hc := congrArg (fun tiers => (tiers.take i).countP (· = some tier)) h
  simp only [← List.map_take, List.countP_map] at hc
  rw [← Function.comp_def (fun o => decide (o = some tier)), ← hc]
  apply List.countP_congr
  intro t _
  simp

namespace Workspace

variable {w : Workspace} {p : Program} {f : Tree → Tree}

/-- The workspace with its program root changed. -/
def changeRoot (w : Workspace) (f : Tree → Tree) : Workspace :=
  ⟨w.blocks.map fun t => if t.block.kind = Catalog.rootKind then f t else t⟩

/-- The global transitions of the program root. -/
def globals (w : Workspace) : List Tree :=
  (w.blocks.filter w.diagram.isRoot).flatMap fun t =>
    Tree.stackedOption (t.block.head? "GLOBAL_TRANSITIONS")

theorem filter_changeRoot (hf : ∀ t, (f t).block.kind = t.block.kind) :
    (w.changeRoot f).blocks.filter (w.changeRoot f).diagram.isRoot =
        (w.blocks.filter w.diagram.isRoot).map f ∧
      (w.changeRoot f).blocks.filter (!(w.changeRoot f).diagram.isRoot ·) =
        w.blocks.filter (!w.diagram.isRoot ·) := by
  have hroot (v : Workspace) :
      v.diagram.isRoot = fun t => decide (t.block.kind = Catalog.rootKind) := rfl
  obtain ⟨blocks⟩ := w
  simp only [changeRoot, hroot]
  induction blocks with
  | nil => exact ⟨rfl, rfl⟩
  | cons t blocks ih =>
    obtain ⟨hl, hr⟩ := ih
    by_cases ht : t.block.kind = Catalog.rootKind
    · simp [ht, hf, hl, hr]
    · simp [ht, hl, hr]

theorem compile_changeRoot (h : w.compile.result = .ok p)
    (hf : ∀ t, (f t).block.kind = t.block.kind) :
    ∃ root beside, w.globals = Tree.stackedOption (root.block.head? "GLOBAL_TRANSITIONS") ∧
      (w.diagram.compile root beside).result = .ok p ∧
      (w.changeRoot f).compile = (w.changeRoot f).diagram.compile (f root) beside ∧
      root ∈ w.blocks ∧ f root ∈ (w.changeRoot f).blocks ∧
      ∀ t ∈ beside, t ∈ w.blocks ∧ t ∈ (w.changeRoot f).blocks := by
  obtain ⟨hroot, hbeside⟩ := filter_changeRoot (w := w) hf
  rw [compile, Diagram.compileAll, Diagram.root] at h
  cases hr : w.blocks.filter w.diagram.isRoot with
  | nil =>
    rw [hr] at h
    cases h
  | cons root others =>
    rw [hr] at h hroot
    cases others with
    | cons _ _ => cases h
    | nil =>
      have hm : root ∈ w.blocks := by
        apply List.mem_of_mem_filter (p := w.diagram.isRoot)
        rw [hr]
        exact List.mem_singleton_self root
      have hm' : f root ∈ (w.changeRoot f).blocks := by
        apply List.mem_of_mem_filter (p := (w.changeRoot f).diagram.isRoot)
        rw [hroot]
        exact List.mem_singleton_self (f root)
      refine ⟨root, w.blocks.filter (!w.diagram.isRoot ·), ?_, h, ?_, hm, hm', ?_⟩
      · rw [globals, hr]
        exact List.append_nil _
      · rw [compile, Diagram.compileAll, Diagram.root, hroot, hbeside]
        rfl
      · intro t ht
        refine ⟨List.mem_of_mem_filter ht, ?_⟩
        rw [← hbeside] at ht
        exact List.mem_of_mem_filter ht

/-- A program that compiles, and a transition block without a condition put into it. The program
still compiles. A transition of a state changes no tick. A global transition changes nothing if one
that is tried before it wins, and otherwise the tick selects its target. -/
theorem tick_of_conditionless {x : Tree} {target : String} (h : w.compile.result = .ok p)
    (hx : x.Conditionless target) :
    (x.block.kind = Catalog.localTransitionKind → ∀ state i,
      ∃ p', (w.changeRoot (x.insertLocal state i)).compile.result = .ok p' ∧
        ∀ {σ : Type} (world : World σ) (active : String) (s : σ),
          p'.tick world active s = p.tick world active s) ∧
    ∀ tier, Generator.globalTier? x.block.kind = some tier → ∀ i,
      ∃ p', (w.changeRoot (x.insertGlobal i)).compile.result = .ok p' ∧
        ∀ {σ : Type} (world : World σ) (active : String) (s : σ),
          let above := (w.globals.take i).countP fun t =>
            Generator.globalTier? t.block.kind = some tier
          let tried := firstTarget world (p.triedBefore tier above) s
          p'.tick world active s =
            if tried.1.isSome then p.tick world active s else (some target, tried.2) := by
  constructor
  · intro hk state i
    have hkind (t : Tree) : (x.insertLocal state i t).block.kind = t.block.kind :=
      congrArg Label.kind (Tree.toLabel_changeStack _ _ t)
    obtain ⟨root, beside, -, hp, hc, hm, hm', hb⟩ := compile_changeRoot h hkind
    obtain ⟨p', hp', he, ht, hs⟩ := Tree.compile_insertLocal hx hk hm hm' hb hp
    exact ⟨p', hc ▸ hp', fun world active s => tick_of_gained world active s he ht hs⟩
  · intro tier htier i
    have hkind (t : Tree) : (x.insertGlobal i t).block.kind = t.block.kind :=
      congrArg Label.kind (Tree.toLabel_changeStack _ _ t)
    obtain ⟨root, beside, hg, hp, hc, hm, hm', hb⟩ := compile_changeRoot h hkind
    obtain ⟨opened, transitions, definitions, rfl, htiers, hp'⟩ :=
      Tree.compile_insertGlobal hx htier hm hm' hb hp
    refine ⟨_, hc ▸ hp', fun world active s => ?_⟩
    have hn : ((w.globals.take i).countP fun t =>
        Generator.globalTier? t.block.kind = some tier) =
          (transitions.take i).countP (·.tier = tier) := by
      rw [hg]
      exact countP_take_of_map htiers i tier
    have ht : tier ≠ .ofState := by
      rcases Generator.globalTier?_eq_some htier with ⟨-, rfl⟩ | ⟨-, rfl⟩ <;> decide
    dsimp only
    rw [hn]
    exact tick_insertedAt world active s ht x target i

/-- A bot that flees when it is hit and hunts what it sees. -/
def wary : Workspace :=
  ⟨[.node { kind := "ai_definition", fields := [("INITIAL_STATE", .text "idle")] } []
    [("GLOBAL_TRANSITIONS", some (.node
        { kind := "fsm_emergency_transition", fields := [("TARGET", .text "flee")] }
        [("CONDITION", some (.node { kind := "was_hit" } [] [] none))] [] none)),
      ("STATES", some (.node { kind := "fsm_state", fields := [("STATE_NAME", .text "idle")] } []
        [("TRANSITIONS", some (.node
          { kind := "fsm_transition", fields := [("TARGET", .text "hunt")] }
          [("CONDITION", some (.node { kind := "is_enemy_visible" } [] [] none))] [] none))]
        none))] none]⟩

theorem wary_tick_of_conditionless :
    ∃ p, wary.compile.result = .ok p ∧
      p.emergency.map (·.target) = ["flee"] ∧ p.tactical = [] ∧
      (∃ p', (wary.changeRoot ((Tree.leap "fsm_transition" "rest" none).insertLocal 0
          0)).compile.result = .ok p' ∧
        ∀ {σ : Type} (world : World σ) (active : String) (s : σ),
          p'.tick world active s = p.tick world active s) ∧
      ∃ p', (wary.changeRoot ((Tree.leap "fsm_tactical_transition" "rest" none).insertGlobal
          0)).compile.result = .ok p' ∧
        ∀ {σ : Type} (world : World σ) (active : String) (s : σ),
          p'.tick world active s =
            if (firstTarget world p.emergency s).1.isSome then p.tick world active s
            else (some "rest", (firstTarget world p.emergency s).2) := by
  have hx (kind : String) : (Tree.leap kind "rest" none).Conditionless "rest" := ⟨rfl, rfl⟩
  have hp : ∃ p, wary.compile.result = .ok p ∧ p.emergency.map (·.target) = ["flee"] ∧
      p.tactical = [] := ⟨_, rfl, rfl, rfl⟩
  obtain ⟨p, hp, he, ht⟩ := hp
  refine ⟨p, hp, he, ht, (tick_of_conditionless hp (hx "fsm_transition")).1 rfl 0 0, ?_⟩
  obtain ⟨p', hp', htick⟩ := (tick_of_conditionless hp (hx "fsm_tactical_transition")).2 .tactical
    rfl 0
  refine ⟨p', hp', fun {σ} world active s => (htick world active s).trans ?_⟩
  have hb : p.triedBefore .tactical 0 = p.emergency := List.append_nil _
  rw [List.take_zero, List.countP_nil, hb]

def inert : Workspace :=
  ⟨[.node { kind := "ai_definition", fields := [("INITIAL_STATE", .text "idle")] } [] [] none]⟩

/-- A tactical transition without a condition wins where no transition did. -/
theorem inert_roused_by_conditionless :
    ∃ p p', inert.compile.result = .ok p ∧
      (inert.changeRoot ((Tree.leap "fsm_tactical_transition" "hunt" none).insertGlobal
        0)).compile.result = .ok p' ∧
      p'.tactical.map (·.condition.text) = ["() => false"] ∧
      ∀ {σ : Type} (world : World σ) (active : String) (s : σ),
        p.tick world active s = (none, s) ∧ p'.tick world active s = (some "hunt", s) := by
  refine ⟨_, _, rfl, rfl, rfl, fun {σ} world active s => ⟨rfl, ?_⟩⟩
  exact @tick_insertedAt σ ("idle", []) [] [] world active s .tactical (by decide)
    (Tree.leap "fsm_tactical_transition" "hunt" none) "hunt" 0

end Workspace

end BlockMachine

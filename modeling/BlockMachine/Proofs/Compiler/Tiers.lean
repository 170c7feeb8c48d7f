import BlockMachine.Proofs.Compiler.States

namespace BlockMachine

open Passage (Leads)

variable {ρ : Type}

namespace Generator

variable {g : Generator ρ}

theorem globalTier?_eq_some {kind : String} {tier : Tier} (h : globalTier? kind = some tier) :
    (kind = Catalog.tacticalTransitionKind ∧ tier = .tactical) ∨
      (kind = Catalog.emergencyTransitionKind ∧ tier = .emergency) := by
  rw [globalTier?] at h
  split at h
  · rename_i hk
    cases h
    exact .inl ⟨hk, rfl⟩
  · split at h
    · rename_i hk
      cases h
      exact .inr ⟨hk, rfl⟩
    · cases h

/-- The passage of a block of one of the two kinds, which gives the tier. -/
inductive TakesTier (g : Generator ρ) (q : Passage ρ Transition) : Prop
  | tactical : (g.diagram.block q.ref).kind = Catalog.tacticalTransitionKind →
    g.TakesGlobal .tactical q → TakesTier g q
  | emergency : (g.diagram.block q.ref).kind = Catalog.emergencyTransitionKind →
    g.TakesGlobal .emergency q → TakesTier g q

namespace TakesTier

variable {q : Passage ρ Transition}

theorem of_runs (h : q.Runs g.globalBlock) : g.TakesTier q := by
  obtain ⟨tier, hk, ht⟩ := takesGlobal_of_runs h
  rcases globalTier?_eq_some hk with ⟨hkind, rfl⟩ | ⟨hkind, rfl⟩
  · exact .tactical hkind ht
  · exact .emergency hkind ht

theorem tactical_iff (h : g.TakesTier q) :
    q.result.tier = .tactical ↔
      (g.diagram.block q.ref).kind = Catalog.tacticalTransitionKind := by
  cases h with
  | tactical hk ht => exact ⟨fun _ => hk, fun _ => ht.tier⟩
  | emergency hk ht =>
    rw [ht.tier, hk]
    decide

theorem emergency_iff (h : g.TakesTier q) :
    q.result.tier = .emergency ↔
      (g.diagram.block q.ref).kind = Catalog.emergencyTransitionKind := by
  cases h with
  | tactical hk ht =>
    rw [ht.tier, hk]
    decide
  | emergency hk ht => exact ⟨fun _ => hk, fun _ => ht.tier⟩

theorem tier (h : g.TakesTier q) : q.result.tier = .tactical ∨ q.result.tier = .emergency := by
  cases h with
  | tactical _ ht => exact .inl ht.tier
  | emergency _ ht => exact .inr ht.tier

end TakesTier

theorem filter_tier {qs : List (Passage ρ Transition)} {tier : Tier} {kind : String}
    (h : ∀ q ∈ qs, (q.result.tier = tier ↔ (g.diagram.block q.ref).kind = kind)) :
    (qs.map (·.result)).filter (·.tier = tier) =
      (qs.filter fun q => (g.diagram.block q.ref).kind = kind).map (·.result) := by
  rw [List.filter_map]
  congr 1
  apply List.filter_congr
  intro q hq
  exact decide_eq_decide.2 (h q hq)

section

variable {opened : String × Table State} {transitions : List Transition}
  {definitions : Table String} {t : Transition}

theorem length_assembled (h : ∀ t ∈ transitions, t.tier = .tactical ∨ t.tier = .emergency) :
    (assembled opened transitions definitions).tactical.length +
      (assembled opened transitions definitions).emergency.length = transitions.length := by
  rw [assembled, ← List.countP_eq_length_filter, ← List.countP_eq_length_filter,
    List.length_eq_countP_add_countP fun t : Transition => t.tier = .tactical]
  congr 1
  apply List.countP_congr
  intro t ht
  rcases h t ht with ht | ht <;> simp [ht]

theorem tier_of_mem_tactical (h : t ∈ (assembled opened transitions definitions).tactical) :
    t.tier = .tactical :=
  of_decide_eq_true (List.mem_filter.1 h).2

theorem tier_of_mem_emergency (h : t ∈ (assembled opened transitions definitions).emergency) :
    t.tier = .emergency :=
  of_decide_eq_true (List.mem_filter.1 h).2

end

theorem ofState_of_opening {root : ρ} {beside : List ρ} {opened : String × Table State}
    {c c' : Context ρ} (h : g.opening root beside c = .ok opened c') {e : String × State}
    (he : e ∈ opened.2) {t : Transition} (ht : t ∈ e.2.transitions) : t.tier = .ofState := by
  obtain ⟨rs, _, -, -, hs⟩ := opening_eq_ok h
  obtain ⟨qs, -, hq, -, hst⟩ := statesFrom_eq_ok hs
  rw [hst] at he
  rcases Table.mem_putAll he with he | he
  · cases he
  · obtain ⟨q, hm, rfl⟩ := List.mem_map.1 he
    obtain ⟨_, hb, -⟩ := hq q hm
    exact (state_eq_ok hb).2 t ht

theorem program_of_foreign {root r : ρ} {beside before after : List ρ}
    (hs : g.diagram.stack ((g.diagram.block root).head? "GLOBAL_TRANSITIONS") =
      .ok (before ++ r :: after))
    (ht : (g.diagram.block r).kind ≠ Catalog.tacticalTransitionKind)
    (he : (g.diagram.block r).kind ≠ Catalog.emergencyTransitionKind) :
    g.program root beside = (do
      let _ ← g.opening root beside
      let _ ← before.mapM g.globalBlock
      Compile.fail (.rule (.notGlobal (g.diagram.block r).site)) : Compile ρ Program) := by
  have hl : (Compile.lift (.ok (before ++ r :: after)) : Compile ρ _) =
      pure (before ++ r :: after) := rfl
  have hk : (g.diagram.block r).kind ∉ Place.globalTransition.kinds := by simp [Place.kinds, ht, he]
  have hr : g.globalBlock r = Compile.fail (.rule (.notGlobal (g.diagram.block r).site)) := by
    rw [globalBlock, globalTier?_eq_none_iff.2 hk]
  have hf (f : Fault) {α β : Type} (k : α → Compile ρ β) :
      (Compile.fail f >>= k) = Compile.fail f := rfl
  rw [program_eq, hs, hl]
  simp only [pure_bind, List.mapM_append, List.mapM_cons, hr, hf, bind_assoc]

end Generator

/-- The tactical and the emergency transitions are those of the stack, in its order, each built from
the block that has its place there. Transitions of states are none of them. A block of another kind
in the stack is what the compilation fails at, unless it fails before. -/
theorem Diagram.globals_split_by_tier (d : Diagram ρ) (root : ρ) (beside : List ρ) :
    (∀ p, (d.compile root beside).result = .ok p →
      ∃ (rs : List ρ) (qs : List (Passage ρ Transition)) (opened : String × Table State)
        (c c' : Context ρ),
        d.stack ((d.block root).head? "GLOBAL_TRANSITIONS") = .ok rs ∧ qs.map (·.ref) = rs ∧
        d.generator.opening root beside {} = .ok opened c ∧ Leads c qs c' ∧
        (∀ q ∈ qs, d.generator.TakesTier q) ∧
        p.tactical = (qs.filter fun q =>
          (d.block q.ref).kind = Catalog.tacticalTransitionKind).map (·.result) ∧
        p.emergency = (qs.filter fun q =>
          (d.block q.ref).kind = Catalog.emergencyTransitionKind).map (·.result) ∧
        p.tactical.length + p.emergency.length = rs.length ∧
        ∀ e ∈ p.states, ∀ t ∈ e.2.transitions,
          t.tier = .ofState ∧ t ∉ p.tactical ∧ t ∉ p.emergency) ∧
    ∀ before r after,
      d.stack ((d.block root).head? "GLOBAL_TRANSITIONS") = .ok (before ++ r :: after) →
      (d.block r).kind ≠ Catalog.tacticalTransitionKind →
      (d.block r).kind ≠ Catalog.emergencyTransitionKind →
      d.compile root beside = (do
        let _ ← d.generator.opening root beside
        let _ ← before.mapM d.generator.globalBlock
        Compile.fail (.rule (.notGlobal (d.block r).site)) : Compile ρ Program).start := by
  constructor
  · intro p h
    obtain ⟨opened, rs, transitions, c, c', ho, hr, hm, hp, -⟩ := compile_eq_ok h
    obtain ⟨qs, hl, hq, hrs, rfl⟩ := Compile.mapM_eq_ok hm
    have hk (q : Passage ρ Transition) (hq' : q ∈ qs) : d.generator.TakesTier q :=
      .of_runs (hq q hq')
    subst hp
    refine ⟨rs, qs, opened, c, c', hr, hrs, ho, hl, hk, ?_, ?_, ?_, ?_⟩
    · exact d.generator.filter_tier fun q hq => (hk q hq).tactical_iff
    · exact d.generator.filter_tier fun q hq => (hk q hq).emergency_iff
    · have hn : rs.length = (qs.map (·.result)).length := by
        rw [← hrs, List.length_map, List.length_map]
      rw [hn]
      apply Generator.length_assembled
      intro t ht
      obtain ⟨q, hq, rfl⟩ := List.mem_map.1 ht
      exact (hk q hq).tier
    · intro e he t ht
      have hs : t.tier = .ofState := Generator.ofState_of_opening ho he ht
      refine ⟨hs, ?_, ?_⟩
      · intro hm
        have htier := Generator.tier_of_mem_tactical hm
        rw [hs] at htier
        cases htier
      · intro hm
        have htier := Generator.tier_of_mem_emergency hm
        rw [hs] at htier
        cases htier
  · intro before r after hs ht he
    rw [compile, Generator.program_of_foreign hs ht he]
    rfl

namespace Tree

/-- A transition of the given kind to a target. -/
def leap (kind target : String) (below : Option Tree) : Tree :=
  .node { kind, fields := [("TARGET", .text target)] } [] [] below

/-- A root with a stack of global transitions and one state, which has a transition too. -/
def leaping (transitions : Tree) : Tree :=
  .node { kind := "ai_definition", fields := [("INITIAL_STATE", .text "idle")] } []
    [("GLOBAL_TRANSITIONS", some transitions),
      ("STATES", some (.node { kind := "fsm_state", fields := [("STATE_NAME", .text "idle")] } []
        [("TRANSITIONS", some (leap "fsm_transition" "hunt" none))] none))] none

/-- A tactical transition between two emergencies. -/
def alternating : Tree :=
  leaping (leap "fsm_emergency_transition" "flee" (some (leap "fsm_tactical_transition" "hunt"
    (some (leap "fsm_emergency_transition" "hide" none)))))

/-- The transition of a state behind an emergency. -/
def intruding : Tree :=
  leaping (leap "fsm_emergency_transition" "flee" (some (leap "fsm_transition" "hunt" none)))

theorem alternating_split_by_tier :
    (∃ p, ((diagram [alternating]).compile alternating []).result = .ok p ∧
      p.tactical.map (·.target) = ["hunt"] ∧ p.emergency.map (·.target) = ["flee", "hide"] ∧
      p.tactical.length + p.emergency.length = 3 ∧
      ∃ qs : List (Passage Tree Transition), qs.length = 3 ∧
        p.emergency = (qs.filter fun q =>
          q.ref.block.kind = Catalog.emergencyTransitionKind).map (·.result)) ∧
    ((diagram [intruding]).compile intruding []).result =
      .error (.rule (.notGlobal ⟨none, "fsm_transition"⟩)) := by
  constructor
  · have hp : ∃ p, ((diagram [alternating]).compile alternating []).result = .ok p ∧
        p.tactical.map (·.target) = ["hunt"] ∧ p.emergency.map (·.target) = ["flee", "hide"] :=
      ⟨_, rfl, rfl, rfl⟩
    obtain ⟨p, hp, ht, he⟩ := hp
    obtain ⟨rs, qs, _, _, _, hr, hq, -, -, -, -, hes, hl, -⟩ :=
      (Diagram.globals_split_by_tier (diagram [alternating]) alternating []).1 p hp
    have hn : rs.length = 3 := by
      cases hr
      rfl
    refine ⟨p, hp, ht, he, hl.trans hn, qs, ?_, hes⟩
    rw [← hn, ← hq, List.length_map]
  · have hc := (Diagram.globals_split_by_tier (diagram [intruding]) intruding []).2
      [leap "fsm_emergency_transition" "flee" (some (leap "fsm_transition" "hunt" none))]
      (leap "fsm_transition" "hunt" none) [] rfl (by decide) (by decide)
    rw [hc]
    rfl

end Tree
end BlockMachine

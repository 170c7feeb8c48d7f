import BlockMachine.Compiler.Assembly
import BlockMachine.Proofs.Compiler.Settled
import BlockMachine.Proofs.Compiler.Steps

namespace BlockMachine

variable {ρ α β : Type}

/-- One block that is compiled among others. -/
structure Passage (ρ α : Type) where
  ref : ρ
  start : Context ρ
  result : α
  finish : Context ρ

namespace Passage

/-- Passages from one context to another, each from where the one before it ends. -/
inductive Leads : Context ρ → List (Passage ρ α) → Context ρ → Prop
  | nil {c : Context ρ} : Leads c [] c
  | cons {q : Passage ρ α} {qs : List (Passage ρ α)} {c c' : Context ρ} :
    q.start = c → Leads q.finish qs c' → Leads c (q :: qs) c'

/-- The passage is a run of the step for its block. -/
def Runs (step : ρ → Compile ρ α) (q : Passage ρ α) : Prop :=
  step q.ref q.start = .ok q.result q.finish

theorem leads_append {qs qs' : List (Passage ρ α)} {c c' : Context ρ} :
    Leads c (qs ++ qs') c' ↔ ∃ c₁, Leads c qs c₁ ∧ Leads c₁ qs' c' := by
  induction qs generalizing c with
  | nil =>
    constructor
    · intro h
      exact ⟨c, .nil, h⟩
    · rintro ⟨_, ⟨⟩, h⟩
      exact h
  | cons q qs ih =>
    constructor
    · intro h
      cases h with
      | cons hs h =>
        obtain ⟨c₁, hl, h⟩ := ih.1 h
        exact ⟨c₁, .cons hs hl, h⟩
    · rintro ⟨c₁, hl, h⟩
      cases hl with
      | cons hs hl => exact .cons hs (ih.2 ⟨c₁, hl, h⟩)

end Passage

open Passage (Leads)

theorem Compile.mapM_eq_ok {step : ρ → Compile ρ α} {rs : List ρ} {c c' : Context ρ} {as : List α}
    (h : rs.mapM step c = .ok as c') :
    ∃ qs : List (Passage ρ α), Leads c qs c' ∧ (∀ q ∈ qs, q.Runs step) ∧
      qs.map (·.ref) = rs ∧ qs.map (·.result) = as := by
  induction rs generalizing c as with
  | nil =>
    cases h
    exact ⟨[], .nil, nofun, rfl, rfl⟩
  | cons r rs ih =>
    rw [List.mapM_cons] at h
    obtain ⟨a, c₁, ha, h⟩ := bind_eq_ok.1 h
    obtain ⟨as, c₂, has, h⟩ := bind_eq_ok.1 h
    cases h
    obtain ⟨qs, hl, hq, rfl, rfl⟩ := ih has
    exact ⟨⟨r, c, a, c₁⟩ :: qs, .cons rfl hl, List.forall_mem_cons.2 ⟨ha, hq⟩, rfl, rfl⟩

namespace Generator

variable {g : Generator ρ} {b : Block ρ} {c c' : Context ρ}

theorem fill_eq_ok {t : Template} {e : Expression} (h : g.fill b t c = .ok e c') :
    ∃ c₁, g.expand b t.parts c₁ = .ok e.text c' := by
  rw [fill] at h
  cases hr : t.reserves with
  | none =>
    rw [hr] at h
    obtain ⟨s, c₂, hs, h⟩ := Compile.bind_eq_ok.1 h
    cases h
    exact ⟨c, hs⟩
  | some entry =>
    rw [hr] at h
    obtain ⟨_, c₁, -, h⟩ := Compile.bind_eq_ok.1 h
    obtain ⟨s, c₂, hs, h⟩ := Compile.bind_eq_ok.1 h
    cases h
    exact ⟨c₁, hs⟩

theorem expression_eq_ok {d : Diagram ρ} {n : Nat} {r : ρ} {e : Expression}
    (h : (ofDepth d (n + 1)).expression r c = .ok e c') :
    ∃ rule t c₁ c₂, ValueRule.ofKind? (d.block r).kind = some rule ∧
      rule.template (d.block r) = .ok t ∧
      (ofDepth d n).expand (d.block r) t.parts c₁ = .ok e.text c₂ := by
  rw [expression_succ] at h
  cases hk : ValueRule.ofKind? (d.block r).kind with
  | none =>
    rw [hk] at h
    cases h
  | some rule =>
    rw [hk] at h
    obtain ⟨c₂, hv, -⟩ := Compile.visiting_eq_ok h
    obtain ⟨t, _, ht, hf⟩ := Compile.bind_eq_ok.1 hv
    obtain ⟨c₁, he⟩ := fill_eq_ok hf
    exact ⟨rule, t, c₁, c₂, rfl, (Compile.lift_eq_ok.1 ht).1, he⟩

theorem statement_eq_ok {d : Diagram ρ} {n : Nat} {r : ρ} {s : String}
    (h : (ofDepth d (n + 1)).statement r c = .ok s c') :
    ∃ rule c₁, StatementRule.ofKind? (d.block r).kind = some rule ∧
      rule.run (ofDepth d n) (d.block r) { c with active := r :: c.active } = .ok s c₁ ∧
      c' = Compile.leave c₁ := by
  rw [statement_succ] at h
  cases hk : StatementRule.ofKind? (d.block r).kind with
  | none =>
    rw [hk] at h
    cases h
  | some rule =>
    rw [hk] at h
    obtain ⟨c₁, hv, hc⟩ := Compile.visiting_eq_ok h
    exact ⟨rule, c₁, rfl, hv, hc⟩

theorem localTransition_eq_ok {t : Transition} (h : g.localTransition b c = .ok t c') :
    t.tier = .ofState := by
  rw [localTransition] at h
  split at h
  · cases h
  · obtain ⟨_, _, -, h⟩ := Compile.bind_eq_ok.1 h
    obtain ⟨_, _, -, h⟩ := Compile.bind_eq_ok.1 h
    cases h
    rfl

theorem state_eq_ok {s : State} (h : g.state b c = .ok s c') :
    b.fieldText "STATE_NAME" = .ok s.name ∧ ∀ t ∈ s.transitions, t.tier = .ofState := by
  rw [state, Watch.state] at h
  split at h
  · cases h
  · obtain ⟨name, _, hn, h⟩ := Compile.bind_eq_ok.1 h
    obtain ⟨_, _, -, h⟩ := Compile.bind_eq_ok.1 h
    obtain ⟨onEnter, _, -, h⟩ := Compile.bind_eq_ok.1 h
    obtain ⟨onExecute, _, -, h⟩ := Compile.bind_eq_ok.1 h
    obtain ⟨onExit, _, -, h⟩ := Compile.bind_eq_ok.1 h
    obtain ⟨transitions, _, ht, h⟩ := Compile.bind_eq_ok.1 h
    obtain ⟨names, _, -, h⟩ := Compile.bind_eq_ok.1 h
    cases h
    refine ⟨(Compile.lift_eq_ok.1 hn).1, ?_⟩
    obtain ⟨rs, _, -, ht⟩ := Compile.bind_eq_ok.1 ht
    obtain ⟨qs, -, hq, -, rfl⟩ := Compile.mapM_eq_ok ht
    intro t ht
    obtain ⟨q, hm, rfl⟩ := List.mem_map.1 ht
    obtain ⟨_, hb, -⟩ := Compile.visiting_eq_ok (hq q hm)
    exact localTransition_eq_ok hb

/-- What a global transition takes from its block. The condition is compiled from the context on
that the transitions before it have left. -/
structure TakesGlobal (g : Generator ρ) (tier : Tier) (q : Passage ρ Transition) : Prop where
  target : (g.diagram.block q.ref).fieldText "TARGET" = .ok q.result.target
  condition : g.condition (g.diagram.block q.ref) "() => false" q.start =
    .ok q.result.condition q.finish
  description : q.result.description = (g.diagram.block q.ref).fieldTextD "DESCRIPTION" ""
  tier : q.result.tier = tier

theorem takesGlobal_of_runs {q : Passage ρ Transition} (h : q.Runs g.globalBlock) :
    ∃ tier, globalTier? (g.diagram.block q.ref).kind = some tier ∧ g.TakesGlobal tier q := by
  obtain ⟨r, c, t, c'⟩ := q
  rw [Passage.Runs, globalBlock] at h
  dsimp only at h ⊢
  cases ht : globalTier? (g.diagram.block r).kind with
  | none =>
    rw [ht] at h
    cases h
  | some tier =>
    rw [ht] at h
    obtain ⟨target, _, hl, h⟩ := Compile.bind_eq_ok.1 h
    obtain ⟨htarget, rfl⟩ := Compile.lift_eq_ok.1 hl
    obtain ⟨condition, c₁, hc, h⟩ := Compile.bind_eq_ok.1 h
    cases h
    exact ⟨tier, rfl, htarget, hc, rfl, rfl⟩

/-- Everything that comes before the global transitions. -/
def opening (g : Generator ρ) (root : ρ) (beside : List ρ) : Compile ρ (String × Table State) := do
  let b := g.diagram.block root
  if b.kind ≠ Catalog.rootKind then Compile.fail (.rule (.unknownKind .programRoot b.site))
  g.preamble beside
  let initialState ← Compile.lift (b.fieldText "INITIAL_STATE")
  let states ← g.statesFrom [] (← Compile.lift (g.diagram.stack (b.head? "STATES")))
  return (initialState, states)

theorem opening_eq_ok {root : ρ} {beside : List ρ} {opened : String × Table State}
    (h : g.opening root beside c = .ok opened c') :
    ∃ rs c₁, g.preamble beside c = .ok () c₁ ∧
      g.diagram.stack ((g.diagram.block root).head? "STATES") = .ok rs ∧
      g.statesFrom [] rs c₁ = .ok opened.2 c' := by
  rw [opening] at h
  split at h
  · cases h
  · obtain ⟨_, c₁, hp, h⟩ := Compile.bind_eq_ok.1 h
    obtain ⟨_, _, hi, h⟩ := Compile.bind_eq_ok.1 h
    obtain ⟨-, rfl⟩ := Compile.lift_eq_ok.1 hi
    obtain ⟨rs, _, hs, h⟩ := Compile.bind_eq_ok.1 h
    obtain ⟨hr, rfl⟩ := Compile.lift_eq_ok.1 hs
    obtain ⟨states, _, hf, h⟩ := Compile.bind_eq_ok.1 h
    cases h
    exact ⟨rs, c₁, hp, hr, hf⟩

/-- The program is put together from its parts, and the definitions are handed out. -/
def closing (site : Site) (opened : String × Table State) (transitions : List Transition) :
    Compile ρ Program := do
  let tactical := transitions.filter (·.tier = .tactical)
  let emergency := transitions.filter (·.tier = .emergency)
  let definitions ← Compile.drain
  Compile.log (.compiledProgram site opened.2.length tactical.length emergency.length
    definitions.length)
  return { definitions, initialState := opened.1, states := opened.2, tactical, emergency }

theorem program_eq (g : Generator ρ) (root : ρ) (beside : List ρ) :
    g.program root beside = (do
      let opened ← g.opening root beside
      let rs ← Compile.lift (g.diagram.stack ((g.diagram.block root).head? "GLOBAL_TRANSITIONS"))
      let transitions ← rs.mapM g.globalBlock
      closing (g.diagram.block root).site opened transitions : Compile ρ Program) := by
  rw [program, Watch.program, opening]
  split
  · rfl
  · simp only [closing, statesFrom, bind_assoc, pure_bind]

theorem program_eq_ok_iff {root : ρ} {beside : List ρ} {p : Program} :
    g.program root beside c = .ok p c' ↔
      ∃ opened rs transitions c₁ c₂,
        g.opening root beside c = .ok opened c₁ ∧
        g.diagram.stack ((g.diagram.block root).head? "GLOBAL_TRANSITIONS") = .ok rs ∧
        rs.mapM g.globalBlock c₁ = .ok transitions c₂ ∧
        closing (g.diagram.block root).site opened transitions c₂ = .ok p c' := by
  rw [program_eq]
  constructor
  · intro h
    obtain ⟨opened, c₁, ho, h⟩ := Compile.bind_eq_ok.1 h
    obtain ⟨rs, _, hs, h⟩ := Compile.bind_eq_ok.1 h
    obtain ⟨hr, rfl⟩ := Compile.lift_eq_ok.1 hs
    obtain ⟨transitions, c₂, ht, h⟩ := Compile.bind_eq_ok.1 h
    exact ⟨opened, rs, transitions, c₁, c₂, ho, hr, ht, h⟩
  · rintro ⟨opened, rs, transitions, c₁, c₂, ho, hr, ht, h⟩
    refine Compile.bind_eq_ok.2 ⟨opened, c₁, ho, ?_⟩
    refine Compile.bind_eq_ok.2 ⟨rs, c₁, Compile.lift_eq_ok.2 ⟨hr, rfl⟩, ?_⟩
    exact Compile.bind_eq_ok.2 ⟨transitions, c₂, ht, h⟩

def assembled (opened : String × Table State) (transitions : List Transition)
    (definitions : Table String) : Program where
  definitions := definitions
  initialState := opened.1
  states := opened.2
  tactical := transitions.filter (·.tier = .tactical)
  emergency := transitions.filter (·.tier = .emergency)

theorem closing_eq_ok {site : Site} {opened : String × Table State} {transitions : List Transition}
    {p : Program} (h : closing site opened transitions c = .ok p c') :
    p = assembled opened transitions c.definitions.entries ∧
      c'.events = c.events ++ [.compiledProgram site p.states.length p.tactical.length
        p.emergency.length p.definitions.length] := by
  obtain ⟨_, c₁, hd, h⟩ := Compile.bind_eq_ok.1 h
  obtain ⟨rfl, he⟩ := Compile.drain_eq_ok hd
  cases h
  refine ⟨rfl, ?_⟩
  dsimp only
  rw [he]

end Generator

theorem Compile.start_eq_ok {x : Compile ρ α} {a : α} (h : x.start.result = .ok a) :
    ∃ c, x {} = .ok a c ∧ x.start.events = c.events := by
  rw [start] at h ⊢
  cases hx : x {} with
  | error f c =>
    rw [hx] at h
    cases h
  | ok b c =>
    rw [hx] at h
    cases h
    exact ⟨c, rfl, rfl⟩

theorem Diagram.compile_eq_ok {d : Diagram ρ} {root : ρ} {beside : List ρ} {p : Program}
    (h : (d.compile root beside).result = .ok p) :
    ∃ opened rs transitions c c',
      d.generator.opening root beside {} = .ok opened c ∧
      d.stack ((d.block root).head? "GLOBAL_TRANSITIONS") = .ok rs ∧
      rs.mapM d.generator.globalBlock c = .ok transitions c' ∧
      p = Generator.assembled opened transitions c'.definitions.entries ∧
      (d.compile root beside).events = c'.events ++ [.compiledProgram (d.block root).site
        p.states.length p.tactical.length p.emergency.length p.definitions.length] := by
  obtain ⟨c₁, hp, he⟩ := Compile.start_eq_ok h
  obtain ⟨opened, rs, transitions, c, c', ho, hr, ht, hp⟩ := Generator.program_eq_ok_iff.1 hp
  obtain ⟨hp, hc⟩ := Generator.closing_eq_ok hp
  rw [← he] at hc
  exact ⟨opened, rs, transitions, c, c', ho, hr, ht, hp, hc⟩

end BlockMachine

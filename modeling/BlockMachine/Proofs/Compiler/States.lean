import BlockMachine.Proofs.Compiler.Growth
import BlockMachine.Proofs.Compiler.Passage

namespace BlockMachine

open Passage (Leads)

variable {ρ : Type}

namespace Generator

variable {g : Generator ρ} {c c' : Context ρ} {states states' : Table State} {rs : List ρ}

/-- A state is built from the context on that the blocks before it have left. What it leaves differs
from what is passed on by a warning at most. -/
def Builds (g : Generator ρ) (q : Passage ρ State) : Prop :=
  ∃ c, g.state (g.diagram.block q.ref) q.start = .ok q.result c ∧
    q.finish.definitions = c.definitions ∧ q.finish.active = c.active

theorem statesFrom_cons_eq_ok {r : ρ} (h : g.statesFrom states (r :: rs) c = .ok states' c') :
    ∃ (s : State) (c₁ c₂ : Context ρ), g.state (g.diagram.block r) c = .ok s c₁ ∧
      c₂ = (if s.name ∈ Table.keys states then
        { c₁ with events := c₁.events ++ [.duplicateState s.name (g.diagram.block r).site] }
        else c₁) ∧
      g.statesFrom (Table.put states s.name s) rs c₂ = .ok states' c' := by
  rw [statesFrom, Watch.statesFrom] at h
  obtain ⟨s, c₁, hs, h⟩ := Compile.bind_eq_ok.1 h
  by_cases hm : s.name ∈ Table.keys states
  · rw [Table.contains, if_pos (List.contains_iff_mem.2 hm)] at h
    exact ⟨s, c₁, _, hs, (if_pos hm).symm, h⟩
  · rw [Table.contains, if_neg (mt List.contains_iff_mem.1 hm)] at h
    exact ⟨s, c₁, _, hs, (if_neg hm).symm, h⟩

/-- A stack of states leaves a passage for each block, and their states go into the table one after
the other. -/
theorem statesFrom_eq_ok (h : g.statesFrom states rs c = .ok states' c') :
    ∃ qs : List (Passage ρ State), Leads c qs c' ∧ (∀ q ∈ qs, g.Builds q) ∧
      qs.map (·.ref) = rs ∧
      states' = Table.putAll states (qs.map fun q => (q.result.name, q.result)) := by
  induction rs generalizing states c with
  | nil =>
    cases h
    exact ⟨[], .nil, nofun, rfl, rfl⟩
  | cons r rs ih =>
    obtain ⟨s, c₁, c₂, hs, hc, h⟩ := statesFrom_cons_eq_ok h
    obtain ⟨qs, hl, hq, rfl, rfl⟩ := ih h
    refine ⟨⟨r, c, s, c₂⟩ :: qs, .cons rfl hl, List.forall_mem_cons.2 ⟨⟨c₁, hs, ?_⟩, hq⟩, rfl, rfl⟩
    rw [hc]
    split <;> exact ⟨rfl, rfl⟩

theorem Growing.duplicates_statesFrom (hg : g.Growing)
    (h : g.statesFrom states rs c = .ok states' c') :
    c'.events.countP Event.isDuplicate + states'.length =
      c.events.countP Event.isDuplicate + states.length + rs.length := by
  induction rs generalizing states c with
  | nil =>
    cases h
    rfl
  | cons r rs ih =>
    obtain ⟨s, c₁, c₂, hs, hc, h⟩ := statesFrom_cons_eq_ok h
    have hw := ((hg.state _).ok hs).countP_events
    rw [ih h, hc, Table.length_put, List.length_cons]
    by_cases hm : s.name ∈ Table.keys states
    · rw [if_pos hm, if_pos hm, List.countP_append, hw, List.countP_singleton]
      simp only [Event.isDuplicate, if_true]
      omega
    · rw [if_neg hm, if_neg hm, hw]
      omega

theorem Growing.becomes_of_builds (hg : g.Growing) {q : Passage ρ State} (h : g.Builds q) :
    q.start.definitions.Becomes g.diagram.Hoists q.finish.definitions := by
  obtain ⟨c, hs, hd, -⟩ := h
  rw [hd]
  exact ((hg.state _).ok hs).definitions

end Generator

theorem Passage.Leads.becomes {α : Type} {D : Deed → Prop} {c c' : Context ρ}
    {qs : List (Passage ρ α)} (h : Leads c qs c')
    (hq : ∀ q ∈ qs, q.start.definitions.Becomes D q.finish.definitions) :
    c.definitions.Becomes D c'.definitions := by
  induction h with
  | nil => exact .refl D _
  | cons hs hl ih =>
    obtain ⟨hq, hqs⟩ := List.forall_mem_cons.1 hq
    rw [← hs]
    exact hq.trans (ih hqs)

theorem Passage.Leads.becomes_of_mem {α : Type} {D : Deed → Prop} {c c' : Context ρ}
    {qs : List (Passage ρ α)} (h : Leads c qs c')
    (hq : ∀ q ∈ qs, q.start.definitions.Becomes D q.finish.definitions) {q : Passage ρ α}
    (hm : q ∈ qs) : q.finish.definitions.Becomes D c'.definitions := by
  obtain ⟨before, after, rfl⟩ := List.append_of_mem hm
  obtain ⟨c₁, -, hl⟩ := Passage.leads_append.1 h
  cases hl with
  | cons hs hl => exact hl.becomes fun q' hq' => hq q' (by simp [hq'])

theorem get?_ofEntries_name (qs : List (Passage ρ State)) (name : String) :
    Table.get? (Table.ofEntries (qs.map fun q => (q.result.name, q.result))) name =
      ((qs.filter (·.result.name = name)).getLast?).map (·.result) := by
  rw [Table.get?_ofEntries, List.filter_map, List.getLast?_map, Option.map_map]
  rfl

/-- Names keep the slots in which they first come up, and the last block with a name gives its
state. The blocks above it have been compiled from one context to the next, what they declare is
declared by the program, and there is a warning for each state that is replaced. -/
theorem Diagram.last_state_counts (d : Diagram ρ) (root : ρ) (beside : List ρ) {p : Program}
    (h : (d.compile root beside).result = .ok p) :
    ∃ (rs : List ρ) (qs : List (Passage ρ State)) (c c' : Context ρ),
      d.stack ((d.block root).head? "STATES") = .ok rs ∧ qs.map (·.ref) = rs ∧
      d.generator.preamble beside {} = .ok () c ∧ Leads c qs c' ∧
      (∀ q ∈ qs, (d.block q.ref).fieldText "STATE_NAME" = .ok q.result.name ∧
        d.generator.Builds q) ∧
      Table.keys p.states = (qs.map (·.result.name)).eraseDups ∧
      (∀ e ∈ p.states, e.2.name = e.1) ∧
      (∀ name, Table.get? p.states name =
        ((qs.filter (·.result.name = name)).getLast?).map (·.result)) ∧
      (∀ q ∈ qs, ∃ made later : List Deed,
        q.finish.definitions = q.start.definitions.after made ∧
        p.definitions = (q.finish.definitions.after later).entries ∧
        ∀ deed ∈ made, d.Hoists deed ∧ identifier deed.name ∈ Table.keys p.definitions) ∧
      (d.compile root beside).events.countP Event.isDuplicate + p.states.length = rs.length := by
  have hg : d.generator.Growing := Generator.growing_ofDepth d _
  obtain ⟨opened, gs, transitions, c', c₂, ho, -, ht, hp, he⟩ := Diagram.compile_eq_ok h
  have hgs : c'.Grows d.Hoists c₂ := (Compile.Grows.mapM hg.globalBlock).ok ht
  obtain ⟨rs, c, hb, hr, hs⟩ := Generator.opening_eq_ok ho
  obtain ⟨qs, hl, hq, hrs, hst⟩ := Generator.statesFrom_eq_ok hs
  have hps : p.states = Table.ofEntries (qs.map fun q => (q.result.name, q.result)) := by
    rw [hp]
    exact hst
  have hpd : p.definitions = c₂.definitions.entries := by rw [hp]; rfl
  refine ⟨rs, qs, c, c', hr, hrs, hb, hl, ?_, ?_, ?_, ?_, ?_, ?_⟩
  · intro q hm
    obtain ⟨_, hn, -⟩ := hq q hm
    exact ⟨(Generator.state_eq_ok hn).1, hq q hm⟩
  · rw [hps, Table.keys_ofEntries, List.map_map]
    rfl
  · intro e hm
    rw [hps] at hm
    rcases Table.mem_putAll hm with hm | hm
    · cases hm
    · obtain ⟨q, -, rfl⟩ := List.mem_map.1 hm
      rfl
  · intro name
    rw [hps, get?_ofEntries_name]
  · intro q hm
    obtain ⟨made, hmade, hf⟩ := hg.becomes_of_builds (hq q hm)
    have hl := hl.becomes_of_mem (fun q hm => hg.becomes_of_builds (hq q hm)) hm
    obtain ⟨later, -, hc⟩ := hl.trans hgs.definitions
    refine ⟨made, later, hf, hpd.trans (congrArg Definitions.entries hc), ?_⟩
    intro deed hd
    refine ⟨hmade deed hd, ?_⟩
    rw [hpd, hc]
    apply (Definitions.keys_after _ later).subset
    rw [hf]
    exact Definitions.mem_keys_after hd _
  · have hn := hg.duplicates_statesFrom hs
    rw [((hg.preamble beside).ok hb).countP_events] at hn
    rw [he, List.countP_append, hgs.countP_events, hp]
    exact hn.trans (Nat.zero_add _)

namespace Tree

/-- A state that logs a constant when it is entered. -/
def greeting (name : FieldValue) (constant : String) (below : Option Tree) : Tree :=
  .node { kind := "fsm_state", fields := [("STATE_NAME", name)] } []
    [("ON_ENTER", some (.node { kind := "api_log" }
      [("MESSAGE", some (.node
        { kind := "custom_constant_get", fields := [("NAME", .text constant)] } [] [] none))]
      [] none))] below

/-- Three states, the last of which has the name of the first. -/
def renumbered : Tree :=
  .node { kind := "ai_definition", fields := [("INITIAL_STATE", .text "1")] } []
    [("STATES", some (greeting (.int 1) "hello" (some (greeting (.text "b") "again"
      (some (greeting (.text "1") "bye" none))))))] none

theorem renumbered_last_state_counts :
    ∃ p, ((diagram [renumbered]).compile renumbered []).result = .ok p ∧
      Table.keys p.states = ["1", "b"] ∧ Table.keys p.definitions = ["hello", "again", "bye"] ∧
      ((diagram [renumbered]).compile renumbered []).events.countP Event.isDuplicate + 2 = 3 ∧
      ∃ qs : List (Passage Tree State), qs.length = 3 ∧
        Table.get? p.states "1" =
          ((qs.filter (·.result.name = "1")).getLast?).map (·.result) ∧
        ∀ q ∈ qs, ∃ made, q.finish.definitions = q.start.definitions.after made ∧
          ∀ deed ∈ made, identifier deed.name ∈ Table.keys p.definitions := by
  have hp : ∃ p, ((diagram [renumbered]).compile renumbered []).result = .ok p ∧
      Table.keys p.states = ["1", "b"] ∧ Table.keys p.definitions = ["hello", "again", "bye"] ∧
      p.states.length = 2 := ⟨_, rfl, rfl, rfl, rfl⟩
  obtain ⟨p, hp, hk, hd, hl⟩ := hp
  obtain ⟨rs, qs, _, _, hr, hq, -, -, -, -, -, hs, hm, hc⟩ := Diagram.last_state_counts _ _ _ hp
  have hn : rs.length = 3 := by
    cases hr
    rfl
  rw [hl, hn] at hc
  refine ⟨p, hp, hk, hd, hc, qs, ?_, hs "1", ?_⟩
  · rw [← hn, ← hq, List.length_map]
  · intro q h
    obtain ⟨made, later, hf, -, hmade⟩ := hm q h
    exact ⟨made, hf, fun deed hd => (hmade deed hd).2⟩

end Tree
end BlockMachine

import BlockMachine.Machine.Script
import BlockMachine.Proofs.Script.Style

namespace BlockMachine

open Script Style

variable {φ : Style}

namespace Script

variable {parameters text : String}

theorem accepts_braced {entries : List String} (h : ∀ s ∈ entries, φ.Accepts s) :
    φ.Accepts (braced entries) :=
  (Accepts.intercalate (by decide) h).indented.enclose (a := ['\x7d']) (φ.fixed (by decide))
    (by decide)

theorem accepts_array {records : List String} (h : ∀ s ∈ records, φ.Accepts s) :
    φ.Accepts (array records) := by
  rw [array]
  split
  · exact .fixed (by decide)
  · exact (Accepts.joinRecords h).indented.enclose (a := [']']) (φ.fixed (by decide)) (by decide)

theorem accepts_terminated (h : φ.Accepts text) : φ.Accepts (terminated text) := by
  rw [terminated]
  split
  · exact h
  · exact h.before (by decide)

theorem accepts_handler (hp : Fixed [] [] parameters) (h : φ.Accepts text) :
    φ.Accepts (handler parameters text) := by
  have hl : Fixed [] [')'] ("function(" ++ parameters) := .append (by decide) (hp.frame _)
  rw [handler]
  split
  · exact .fixed (hl.append (by decide))
  · have hb : Fixed [] ['\x7d'] ("function(" ++ parameters ++ ") \x7b\n") := hl.append (by decide)
    exact (accepts_terminated h).indented.enclose (φ.fixed hb) (by decide)

theorem accepts_condition (hp : Fixed [] [] parameters) (h : φ.Accepts text) :
    φ.Accepts (condition parameters text) := by
  have hr : φ.Accepts ("return (" ++ text ++ ");") :=
    h.enclose (a := [')']) (φ.fixed (by decide)) (by decide)
  have hl : Fixed [] ['\x7d'] ("function (" ++ parameters ++ ") \x7b\n") :=
    .append (.append (by decide) (hp.frame [')'])) (by decide)
  exact hr.indented.enclose (φ.fixed hl) (by decide)

end Script

variable (φ)

structure Transition.Styled (t : Transition) : Prop where
  target : φ.word t.target
  condition : φ.Accepts t.condition.text
  description : φ.word t.description

structure State.Styled (s : State) : Prop where
  name : φ.word s.name
  onEnter : φ.Accepts s.onEnter
  onExecute : φ.Accepts s.onExecute
  onExit : φ.Accepts s.onExit
  transitions : ∀ t ∈ s.transitions, t.Styled φ
  interruptibleBy : ∀ names ∈ s.interruptibleBy, ∀ name ∈ names, φ.word name

/-- The texts of the machine, but for its definitions. -/
structure Program.Styled (p : Program) : Prop where
  initialState : φ.word p.initialState
  states : ∀ e ∈ p.states, φ.word e.1 ∧ e.2.Styled φ
  tactical : ∀ t ∈ p.tactical, t.Styled φ
  emergency : ∀ t ∈ p.emergency, t.Styled φ

variable {φ}

theorem Transition.Styled.script {t : Transition} (h : t.Styled φ) : φ.Accepts t.script := by
  have hp : Fixed [] []
      (if t.tier = .ofState then localConditionParameters else globalConditionParameters) := by
    split <;> decide
  have ht : φ.Accepts ("target: " ++ quoted t.target) := .behind (by decide) (φ.quoted h.target)
  have hc := Accepts.behind (l := "condition: ") (by decide) (accepts_condition hp h.condition)
  have hd : φ.Accepts ("description: " ++ quoted t.description) :=
    .behind (by decide) (φ.quoted h.description)
  apply accepts_braced
  refine List.forall_mem_append.2 ⟨List.forall_mem_append.2 ⟨?_, ?_⟩, ?_⟩
  · exact List.forall_mem_cons.2 ⟨ht, List.forall_mem_singleton.2 hc⟩
  · split
    · nofun
    · exact List.forall_mem_singleton.2 hd
  · split
    · exact List.forall_mem_singleton.2 (.fixed (by decide))
    · nofun

theorem accepts_transitions {ts : List Transition} (h : ∀ t ∈ ts, t.Styled φ) :
    φ.Accepts (array (ts.map Transition.script)) := by
  apply accepts_array
  intro s hs
  obtain ⟨t, ht, rfl⟩ := List.mem_map.1 hs
  exact (h t ht).script

theorem accepts_interruption {names : Option (List String)}
    (h : ∀ ns ∈ names, ∀ name ∈ ns, φ.word name) : φ.Accepts (interruptionScript names) := by
  cases names with
  | none => exact .fixed (by decide)
  | some names =>
    have hn : φ.Accepts (", ".intercalate (names.map quoted)) := by
      apply Accepts.intercalate (by decide)
      intro s hs
      obtain ⟨name, hm, rfl⟩ := List.mem_map.1 hs
      exact φ.quoted (h names rfl name hm)
    exact hn.enclose (a := [']']) (φ.fixed (by decide)) (by decide)

theorem State.Styled.script {s : State} (h : s.Styled φ) : φ.Accepts s.script := by
  apply accepts_braced
  simp only [List.forall_mem_cons, List.not_mem_nil, false_implies, implies_true, and_true]
  refine ⟨?_, ?_, ?_, ?_, ?_⟩
  · exact .behind (by decide) (accepts_handler (by decide) h.onEnter)
  · exact .behind (by decide) (accepts_handler (by decide) h.onExecute)
  · exact .behind (by decide) (accepts_handler (by decide) h.onExit)
  · exact .behind (by decide) (accepts_interruption h.interruptibleBy)
  · exact .behind (by decide) (accepts_transitions h.transitions)

theorem accepts_states {states : Table State} (h : ∀ e ∈ states, φ.word e.1 ∧ e.2.Styled φ) :
    φ.Accepts (statesScript states) := by
  rw [statesScript]
  split
  · exact .fixed (by decide)
  · apply accepts_braced
    intro s hs
    obtain ⟨⟨name, state⟩, he, rfl⟩ := List.mem_map.1 hs
    obtain ⟨hn, hs⟩ := h _ he
    have hq : φ.Accepts (quoted name) := φ.quoted hn
    exact (hq.before (by decide)).append hs.script

theorem Program.Styled.script {p : Program} (h : p.Styled φ)
    (hd : ∀ e ∈ p.definitions, φ.Accepts e.2) : φ.Accepts p.script := by
  have hb : φ.Accepts (braced
      ["initialState: " ++ quoted p.initialState,
        "states: " ++ statesScript p.states,
        "tacticalTransitions: " ++ array (p.tactical.map Transition.script),
        "emergencyTransitions: " ++ array (p.emergency.map Transition.script)]) := by
    apply accepts_braced
    simp only [List.forall_mem_cons, List.not_mem_nil, false_implies, implies_true, and_true]
    refine ⟨?_, ?_, ?_, ?_⟩
    · exact .behind (by decide) (φ.quoted h.initialState)
    · exact .behind (by decide) (accepts_states h.states)
    · exact .behind (by decide) (accepts_transitions h.tactical)
    · exact .behind (by decide) (accepts_transitions h.emergency)
  refine Accepts.before (Accepts.intercalate (by decide) ?_) (by decide)
  refine List.forall_mem_append.2 ⟨?_, ?_⟩
  · intro s hs
    obtain ⟨e, he, rfl⟩ := List.mem_map.1 hs
    exact hd e he
  · exact List.forall_mem_singleton.2 ((Accepts.behind (by decide) hb).before (by decide))

end BlockMachine

import BlockMachine.Compiler.Document
import BlockMachine.Machine.Json
import BlockMachine.Proofs.Compiler.States
import BlockMachine.Proofs.Json.RoundTrip
import BlockMachine.Proofs.Script.Phrase
import BlockMachine.Proofs.Workspace.Declarations

namespace BlockMachine

open Json (Legible Pointed)

namespace Order

def wholeDigits (n : Nat) : List Nat := if n < 10 then [n] else [n / 10, n % 10]

theorem pointed_level (o : Order) :
    Pointed o.level (wholeDigits (o.tenths / 10)) [o.tenths % 10] := by
  have hall : ∀ o ∈ all, Pointed o.level (wholeDigits (o.tenths / 10)) [o.tenths % 10] := by
    decide +kernel
  exact hall o o.mem_all

end Order

theorem Expression.legible (e : Expression) : e.toJson.Legible := by
  have hk : ["text", "order"].Nodup := by decide
  refine .obj hk ?_
  simp only [List.forall_mem_cons]
  exact ⟨.str _, .float e.order.pointed_level, nofun⟩

theorem Transition.legible (t : Transition) : t.toJson.Legible := by
  have hk : ["target", "condition", "description", "tier"].Nodup := by decide
  refine .obj hk ?_
  simp only [List.forall_mem_cons]
  exact ⟨.str _, t.condition.legible, .str _, .str _, nofun⟩

theorem legible_transitions (ts : List Transition) : (Json.arr (ts.map (·.toJson))).Legible :=
  .arr (List.forall_mem_map.2 fun t _ => t.legible)

theorem State.legible (s : State) : s.toJson.Legible := by
  have hk : ["name", "onEnter", "onExecute", "onExit", "transitions", "interruptibleBy"].Nodup := by
    decide
  refine .obj hk ?_
  simp only [List.forall_mem_cons]
  refine ⟨.str _, .str _, .str _, .str _, legible_transitions _, ?_, nofun⟩
  cases s.interruptibleBy with
  | none => exact .null
  | some names => exact .arr (List.forall_mem_map.2 fun name _ => .str name)

theorem legible_table {α : Type} {t : Table α} {toJson : α → Json} (hk : (Table.keys t).Nodup)
    (hl : ∀ a, (toJson a).Legible) : (Json.obj (t.map fun e => (e.1, toJson e.2))).Legible := by
  refine .obj ?_ (List.forall_mem_map.2 fun e _ => hl e.2)
  rw [Table.keys, List.map_map]
  exact hk

theorem Program.legible {p : Program} (hd : (Table.keys p.definitions).Nodup)
    (hs : (Table.keys p.states).Nodup) : p.toJson.Legible := by
  have hk : ["definitions", "initialState", "states", "tacticalTransitions",
      "emergencyTransitions"].Nodup := by decide
  refine .obj hk ?_
  simp only [List.forall_mem_cons]
  exact ⟨legible_table hd .str, .str _, legible_table hs State.legible, legible_transitions _,
    legible_transitions _, nofun⟩

theorem Diagram.nodup_states {ρ : Type} {d : Diagram ρ} {root : ρ} {beside : List ρ} {p : Program}
    (h : (d.compile root beside).result = .ok p) : (Table.keys p.states).Nodup := by
  obtain ⟨opened, _, _, c, _, ho, -, -, rfl, -⟩ := compile_eq_ok h
  obtain ⟨_, _, -, -, hs⟩ := Generator.opening_eq_ok ho
  obtain ⟨qs, -, -, -, hs⟩ := Generator.statesFrom_eq_ok hs
  rw [Generator.assembled, hs]
  exact Table.nodup_putAll (show (Table.keys ([] : Table State)).Nodup from List.nodup_nil) _

theorem legible_of_compile {document : Json} {p : Program}
    (h : (compileDocument document).result = .ok p) : p.toJson.Legible := by
  rw [compileDocument] at h
  split at h
  · obtain ⟨root, -, hc⟩ := Workspace.exists_root h
    refine Program.legible ?_ (Diagram.nodup_states hc)
    rw [Workspace.definitions_eq h, Position.keys_entries]
    exact nodup_eraseDups _
  · cases h

end BlockMachine

import BlockMachine.Compiler.Statement
import BlockMachine.Proofs.Table

namespace BlockMachine

variable {ρ σ α β : Type}

theorem Table.get?_map (f : α → β) (t : Table α) (key : String) :
    get? (t.map fun e => (e.1, f e.2)) key = (get? t key).map f := by
  induction t with
  | nil => rfl
  | cons e t ih =>
    rw [List.map_cons, get?_cons, get?_cons, ih]
    split <;> rfl

theorem Table.keys_map (f : α → β) (t : Table α) :
    keys (t.map fun e => (e.1, f e.2)) = keys t := by
  rw [keys, keys, List.map_map]
  rfl

namespace Block

/-- The blocks that a block refers to. -/
inductive Links (b : Block ρ) (u : ρ) : Prop
  | value {socket : String} : (socket, some u) ∈ b.values → Links b u
  | statement {socket : String} : (socket, some u) ∈ b.statements → Links b u
  | next : b.next = some u → Links b u

def references (b : Block ρ) : List ρ :=
  b.values.filterMap Prod.snd ++ b.statements.filterMap Prod.snd ++ b.next.toList

theorem links_iff {b : Block ρ} {u : ρ} : b.Links u ↔ u ∈ b.references := by
  have hsockets {t : Table (Option ρ)} :
      u ∈ t.filterMap Prod.snd ↔ ∃ socket, (socket, some u) ∈ t := by
    simp [List.mem_filterMap]
  rw [references, List.mem_append, List.mem_append, hsockets, hsockets, Option.mem_toList]
  constructor
  · intro h
    cases h with
    | value hm => exact .inl (.inl ⟨_, hm⟩)
    | statement hm => exact .inl (.inr ⟨_, hm⟩)
    | next hn => exact .inr hn
  · rintro ((⟨_, hm⟩ | ⟨_, hm⟩) | hn)
    · exact .value hm
    · exact .statement hm
    · exact .next hn

instance [DecidableEq ρ] (b : Block ρ) (u : ρ) : Decidable (b.Links u) :=
  decidable_of_iff _ links_iff.symm

def map (f : ρ → σ) (b : Block ρ) : Block σ where
  toLabel := b.toLabel
  values := b.values.map fun e => (e.1, e.2.map f)
  statements := b.statements.map fun e => (e.1, e.2.map f)
  next := b.next.map f

variable (f : ρ → σ) (b : Block ρ)

theorem kind_map : (b.map f).kind = b.kind := rfl

theorem map_id : b.map id = b := by
  simp [map]

theorem value?_map (socket : String) : (b.map f).value? socket = (b.value? socket).map f := by
  rw [value?, value?, map, Table.get?_map, Option.join_map_eq_map_join]

theorem head?_map (socket : String) : (b.map f).head? socket = (b.head? socket).map f := by
  rw [head?, head?, map, Table.get?_map, Option.join_map_eq_map_join]

theorem slotCount_map : ValueRule.slotCount (b.map f) = ValueRule.slotCount b := by
  rw [ValueRule.slotCount, ValueRule.slotCount, map, Table.keys_map]
  rfl

theorem branchIndices_map :
    StatementRule.branchIndices (b.map f) = StatementRule.branchIndices b := by
  rw [StatementRule.branchIndices, StatementRule.branchIndices, sockets, sockets, map,
    Table.keys_map, Table.keys_map]
  rfl

variable {f b}

theorem sockets_congr {g : ρ → σ} {t : Table (Option ρ)}
    (h : ∀ socket u, (socket, some u) ∈ t → f u = g u) :
    t.map (fun e => (e.1, e.2.map f)) = t.map fun e => (e.1, e.2.map g) := by
  apply List.map_congr_left
  rintro ⟨socket, child⟩ he
  cases child with
  | none => rfl
  | some u => rw [Option.map_some, Option.map_some, h socket u he]

theorem map_congr {g : ρ → σ} (h : ∀ u, b.Links u → f u = g u) : b.map f = b.map g := by
  have hn : b.next.map f = b.next.map g := by
    cases hn : b.next with
    | none => rfl
    | some u => exact congrArg some (h u (.next hn))
  rw [map, map, sockets_congr fun _ u hu => h u (.value hu),
    sockets_congr fun _ u hu => h u (.statement hu), hn]

theorem Links.map {u : ρ} (h : b.Links u) : (b.map f).Links (f u) := by
  cases h with
  | value hm => exact .value (List.mem_map_of_mem hm)
  | statement hm => exact .statement (List.mem_map_of_mem hm)
  | next hn => exact .next (congrArg (Option.map f) hn)

theorem Links.of_value? {socket : String} {u : ρ} (h : b.value? socket = some u) : b.Links u :=
  .value (Table.mem_of_join_get? h)

theorem Links.of_head? {socket : String} {u : ρ} (h : b.head? socket = some u) : b.Links u :=
  .statement (Table.mem_of_join_get? h)

end Block
end BlockMachine

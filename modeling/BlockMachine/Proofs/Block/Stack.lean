import BlockMachine.Proofs.Block.Tree
import BlockMachine.Proofs.Compiler.Settled
import BlockMachine.Proofs.Except

namespace BlockMachine

theorem Diagram.forall_mem_stackFrom {ρ : Type} {d : Diagram ρ} {P : ρ → Prop}
    (hn : ∀ {r s}, P r → (d.block r).next = some s → P s) {steps : Nat} {visited rs : List ρ}
    {top : Option ρ} (ht : ∀ r, top = some r → P r) (h : d.stackFrom steps visited top = .ok rs) :
    ∀ r ∈ rs, P r := by
  induction steps generalizing visited top rs with
  | zero =>
    cases top with
    | none =>
      cases h
      nofun
    | some r => cases h
  | succ steps ih =>
    cases top with
    | none =>
      cases h
      nofun
    | some r =>
      have hr := ht r rfl
      rw [stackFrom] at h
      split at h
      · cases h
      · obtain ⟨rest, hs, rfl⟩ := map_eq_ok.1 h
        exact List.forall_mem_cons.2 ⟨hr, ih (fun s hs => hn hr hs) hs⟩

namespace Tree

variable {t u : Tree}

theorem block_diagram (ts : List Tree) (t : Tree) : (diagram ts).block t = t.block := rfl

theorem toLabel_block (t : Tree) : t.block.toLabel = t.label := by
  cases t
  rfl

theorem size_pos (t : Tree) : 0 < t.size := by
  cases t
  rw [size]
  omega

theorem size_le_of_mem_sockets {sockets : List (String × Option Tree)} {socket : String}
    (h : (socket, some t) ∈ sockets) : t.size ≤ sizeSockets sockets := by
  induction sockets with
  | nil => cases h
  | cons e sockets ih =>
    obtain ⟨name, child⟩ := e
    rw [sizeSockets]
    rcases List.mem_cons.1 h with he | hm
    · cases he
      rw [sizeOption]
      exact Nat.le_add_right _ _
    · exact Nat.le_trans (ih hm) (Nat.le_add_left _ _)

theorem size_lt_of_mem_values {socket : String} (h : (socket, some u) ∈ t.block.values) :
    u.size < t.size := by
  obtain ⟨label, values, statements, next⟩ := t
  have := size_le_of_mem_sockets h
  rw [size]
  change u.size ≤ sizeSockets values at this
  omega

theorem size_lt_of_mem_statements {socket : String} (h : (socket, some u) ∈ t.block.statements) :
    u.size < t.size := by
  obtain ⟨label, values, statements, next⟩ := t
  have := size_le_of_mem_sockets h
  rw [size]
  change u.size ≤ sizeSockets statements at this
  omega

theorem size_lt_of_next (h : t.block.next = some u) : u.size < t.size := by
  obtain ⟨label, values, statements, next⟩ := t
  change next = some u at h
  rw [size, h, sizeOption]
  omega

theorem size_le_bound {ts : List Tree} (h : t ∈ ts) : t.size ≤ (diagram ts).bound := by
  induction ts with
  | nil => cases h
  | cons u ts ih =>
    change t.size ≤ u.size + (diagram ts).bound
    rcases List.mem_cons.1 h with rfl | hm
    · exact Nat.le_add_right _ _
    · exact Nat.le_trans (ih hm) (Nat.le_add_left _ _)

mutual
/-- A block and the blocks below it, from the top. -/
def stacked : Tree → List Tree
  | .node label values statements next =>
    .node label values statements next :: stackedOption next

def stackedOption : Option Tree → List Tree
  | none => []
  | some t => stacked t
end

theorem stacked_eq (t : Tree) : t.stacked = t :: stackedOption t.block.next := by
  cases t
  rw [stacked]
  rfl

theorem size_le_of_within (h : u.Within t) : u.size ≤ t.size := by
  induction h with
  | self => exact Nat.le_refl _
  | value hm _ ih => exact Nat.le_trans ih (Nat.le_of_lt (size_lt_of_mem_values hm))
  | statement hm _ ih => exact Nat.le_trans ih (Nat.le_of_lt (size_lt_of_mem_statements hm))
  | next hn _ ih => exact Nat.le_trans ih (Nat.le_of_lt (size_lt_of_next hn))

theorem within_of_mem_stacked (h : u ∈ t.stacked) : u.Within t := by
  induction t using Tree.induct with
  | node label values statements next _ _ ih =>
    rw [stacked_eq] at h
    rcases List.mem_cons.1 h with rfl | h
    · exact .self
    · change u ∈ stackedOption next at h
      cases next with
      | none =>
        rw [stackedOption] at h
        cases h
      | some v =>
        rw [stackedOption] at h
        exact .next rfl (ih v rfl h)

theorem stackFrom_eq (ts : List Tree) {steps : Nat} (visited : List Tree) (h : t.size ≤ steps) :
    (diagram ts).stackFrom steps visited (some t) = .ok t.stacked := by
  induction steps generalizing t visited with
  | zero => exact absurd h (Nat.not_le.2 t.size_pos)
  | succ steps ih =>
    rw [Diagram.stackFrom, seen_diagram, stacked_eq]
    change Except.map _ ((diagram ts).stackFrom steps (t :: visited) t.block.next) = _
    cases hn : t.block.next with
    | none => cases steps <;> rw [stackedOption] <;> rfl
    | some u =>
      have hu : u.size < t.size := size_lt_of_next hn
      rw [ih (t :: visited) (by omega), stackedOption]
      rfl

theorem stack_eq {ts : List Tree} {top : Option Tree}
    (h : ∀ t, top = some t → t.size ≤ (diagram ts).bound) :
    (diagram ts).stack top = .ok (stackedOption top) := by
  cases top with
  | none =>
    rw [stackedOption]
    rfl
  | some t =>
    rw [stackedOption]
    exact stackFrom_eq ts [] (Nat.le_succ_of_le (h t rfl))

end Tree
end BlockMachine

import BlockMachine.Block.Catalog
import BlockMachine.Block.Tree
import BlockMachine.Proofs.Table

namespace BlockMachine.Tree

/-- Induction over a tree: what holds of all that a block holds or has below it, holds of it. -/
@[elab_as_elim]
theorem induct {motive : Tree → Prop}
    (node : ∀ label values statements next,
      (∀ socket t, (socket, some t) ∈ values → motive t) →
      (∀ socket t, (socket, some t) ∈ statements → motive t) →
      (∀ t, next = some t → motive t) → motive (.node label values statements next))
    (t : Tree) : motive t := by
  refine @Tree.rec motive (fun sockets => ∀ socket t, (socket, some t) ∈ sockets → motive t)
    (fun child => ∀ t, child = some t → motive t) (fun e => ∀ t, e.2 = some t → motive t)
    node nofun ?_ nofun ?_ (fun _ _ h => h) t
  · intro e sockets he hs socket u hu
    rcases List.mem_cons.1 hu with rfl | hu
    · exact he u rfl
    · exact hs socket u hu
  · intro u hu v hv
    cases hv
    exact hu

/-- The property holds of every block of a tree. -/
inductive All (p : Tree → Prop) : Tree → Prop
  | node {label : Label} {values statements : Table (Option Tree)} {next : Option Tree} :
    p (.node label values statements next) →
    (∀ socket t, (socket, some t) ∈ values → All p t) →
    (∀ socket t, (socket, some t) ∈ statements → All p t) →
    (∀ t, next = some t → All p t) → All p (.node label values statements next)

theorem All.of_values {p : Tree → Prop} {label : Label} {values : Table (Option Tree)}
    (h : p (.node label values [] none))
    (hv : ∀ socket t, (socket, some t) ∈ values → All p t) : All p (.node label values [] none) :=
  .node h hv nofun nofun

/-- A block of a tree, with what it holds and has below it. -/
inductive Within (u : Tree) : Tree → Prop
  | self : Within u u
  | value {t s : Tree} {socket : String} :
    (socket, some s) ∈ t.block.values → Within u s → Within u t
  | statement {t s : Tree} {socket : String} :
    (socket, some s) ∈ t.block.statements → Within u s → Within u t
  | next {t s : Tree} : t.block.next = some s → Within u s → Within u t

/-- The property holds of every block that a block holds or has below it. -/
structure Beneath (p : Tree → Prop) (t : Tree) : Prop where
  values : ∀ socket u, (socket, some u) ∈ t.block.values → u.All p
  statements : ∀ socket u, (socket, some u) ∈ t.block.statements → u.All p
  next : ∀ u, t.block.next = some u → u.All p

section

variable {p : Tree → Prop} {t u : Tree}

theorem All.self (h : t.All p) : p t := by
  cases h
  assumption

theorem All.beneath (h : t.All p) : t.Beneath p := by
  cases h with
  | node _ hv hs hn => exact ⟨hv, hs, hn⟩

theorem All.of_within (h : t.All p) (hu : u.Within t) : u.All p := by
  induction hu with
  | self => exact h
  | value hm _ ih => exact ih (h.beneath.values _ _ hm)
  | statement hm _ ih => exact ih (h.beneath.statements _ _ hm)
  | next hn _ ih => exact ih (h.beneath.next _ hn)

theorem Beneath.value? (h : t.Beneath p) {socket : String} (hu : t.block.value? socket = some u) :
    u.All p :=
  h.values socket u (Table.mem_of_join_get? hu)

theorem Beneath.head? (h : t.Beneath p) {socket : String} (hu : t.block.head? socket = some u) :
    u.All p :=
  h.statements socket u (Table.mem_of_join_get? hu)

end

/-- Every socket is where the catalog puts it, and none comes twice. -/
structure Placed (t : Tree) : Prop where
  values : ∀ socket ∈ Table.keys t.block.values,
    Catalog.isStatementSocket t.label.kind socket = false
  statements : ∀ socket ∈ Table.keys t.block.statements,
    Catalog.isStatementSocket t.label.kind socket = true
  nodup_values : (Table.keys t.block.values).Nodup
  nodup_statements : (Table.keys t.block.statements).Nodup

mutual
def pruned : Tree → Tree
  | .node label values statements next =>
    .node label (prunedSockets values) (prunedSockets statements) (prunedOption next)

def prunedSockets : List (String × Option Tree) → List (String × Option Tree)
  | [] => []
  | (_, none) :: rest => prunedSockets rest
  | (socket, some t) :: rest => (socket, some (pruned t)) :: prunedSockets rest

def prunedOption : Option Tree → Option Tree
  | none => none
  | some t => some (pruned t)
end

@[simp] theorem label_pruned (t : Tree) : t.pruned.label = t.label := by
  cases t
  rw [pruned]
  rfl

theorem keys_prunedSockets_sublist (sockets : List (String × Option Tree)) :
    (Table.keys (prunedSockets sockets)).Sublist (Table.keys sockets) := by
  induction sockets with
  | nil =>
    unfold prunedSockets
    exact .slnil
  | cons e sockets ih =>
    obtain ⟨socket, child⟩ := e
    cases child with
    | none =>
      rw [prunedSockets]
      exact ih.cons socket
    | some t =>
      rw [prunedSockets]
      exact ih.cons_cons socket

theorem join_get?_prunedSockets {sockets : Table (Option Tree)} (h : (Table.keys sockets).Nodup)
    (socket : String) :
    (Table.get? (prunedSockets sockets) socket).join =
      (Table.get? sockets socket).join.map pruned := by
  induction sockets with
  | nil =>
    rw [prunedSockets]
    rfl
  | cons e sockets ih =>
    obtain ⟨name, child⟩ := e
    obtain ⟨hn, h⟩ := List.nodup_cons.1 h
    have ih := ih h
    rw [Table.get?_cons]
    cases child with
    | none =>
      rw [prunedSockets, ih]
      split
      · -- The name is gone from the pruned sockets, and none of the others bears it.
        rename_i he
        rw [he, Table.get?_eq_none_iff.2 hn]
        rfl
      · rfl
    | some t =>
      rw [prunedSockets, Table.get?_cons]
      split
      · rfl
      · exact ih

theorem prunedOption_eq_map (child : Option Tree) : prunedOption child = child.map pruned := by
  cases child <;> rw [prunedOption] <;> rfl

section

variable {t : Tree}

theorem Placed.value?_pruned (h : t.Placed) (socket : String) :
    t.pruned.block.value? socket = (t.block.value? socket).map Tree.pruned := by
  cases t
  rw [Tree.pruned]
  exact join_get?_prunedSockets h.nodup_values socket

theorem Placed.head?_pruned (h : t.Placed) (socket : String) :
    t.pruned.block.head? socket = (t.block.head? socket).map Tree.pruned := by
  cases t
  rw [Tree.pruned]
  exact join_get?_prunedSockets h.nodup_statements socket

theorem next_pruned (t : Tree) : t.pruned.block.next = t.block.next.map pruned := by
  cases t
  rw [pruned]
  exact prunedOption_eq_map _

theorem toLabel_pruned (t : Tree) : t.pruned.block.toLabel = t.block.toLabel := by
  cases t
  rw [pruned]
  rfl

end

theorem sizeSockets_pruned {sockets : List (String × Option Tree)}
    (h : ∀ socket t, (socket, some t) ∈ sockets → t.pruned.size = t.size) :
    sizeSockets (prunedSockets sockets) = sizeSockets sockets := by
  induction sockets with
  | nil => rw [prunedSockets]
  | cons e sockets ih =>
    obtain ⟨socket, child⟩ := e
    have ih := ih fun s t hm => h s t (List.mem_cons_of_mem _ hm)
    cases child with
    | none => rw [prunedSockets, sizeSockets, sizeOption, Nat.zero_add, ih]
    | some t =>
      rw [prunedSockets, sizeSockets, sizeSockets, sizeOption, sizeOption, ih,
        h socket t List.mem_cons_self]

@[simp] theorem size_pruned (t : Tree) : t.pruned.size = t.size := by
  induction t using Tree.induct with
  | node label values statements next ihv ihs ihn =>
    have hn : sizeOption (prunedOption next) = sizeOption next := by
      cases next with
      | none => rw [prunedOption]
      | some t => rw [prunedOption, sizeOption, sizeOption, ihn t rfl]
    rw [pruned, size, size, sizeSockets_pruned ihv, sizeSockets_pruned ihs, hn]

theorem keys_values_pruned (t : Tree) :
    (Table.keys t.pruned.block.values).Sublist (Table.keys t.block.values) := by
  cases t
  rw [pruned]
  exact keys_prunedSockets_sublist _

theorem keys_statements_pruned (t : Tree) :
    (Table.keys t.pruned.block.statements).Sublist (Table.keys t.block.statements) := by
  cases t
  rw [pruned]
  exact keys_prunedSockets_sublist _

theorem Placed.disjoint {t : Tree} (h : t.Placed) :
    ∀ socket ∈ Table.keys t.block.statements, socket ∉ Table.keys t.block.values := by
  intro socket hs hv
  have := h.values socket hv
  rw [h.statements socket hs] at this
  cases this

theorem Placed.pruned {t : Tree} (h : t.Placed) : t.pruned.Placed := by
  have hv := t.keys_values_pruned
  have hs := t.keys_statements_pruned
  refine ⟨fun socket hm => ?_, fun socket hm => ?_, h.nodup_values.sublist hv,
    h.nodup_statements.sublist hs⟩
  · rw [label_pruned]
    exact h.values socket (hv.subset hm)
  · rw [label_pruned]
    exact h.statements socket (hs.subset hm)

end BlockMachine.Tree

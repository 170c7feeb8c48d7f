import BlockMachine.Proofs.Block.Tree
import BlockMachine.Proofs.Compiler.Counts
import BlockMachine.Proofs.Compiler.Simulation
import BlockMachine.Proofs.Option
import Mathlib.Algebra.Ring.Nat
import Mathlib.Data.List.Sort

namespace BlockMachine

/-- The same document but for the order of members, at any depth. -/
inductive Json.Reordered : Json → Json → Prop
  | same (j : Json) : Reordered j j
  | arr {items items' : List Json} : List.Forall₂ Reordered items items' →
    Reordered (.arr items) (.arr items')
  | obj {members members' : Table Json} :
    (∀ key, Option.Rel Reordered (Table.get? members key) (Table.get? members' key)) →
    Reordered (.obj members) (.obj members')

/-- Two labels whose rules read the same. Ids, positions and shadow marks may differ. -/
structure Label.Redrawn (l l' : Label) : Prop where
  kind : l.kind = l'.kind
  fields (name : String) : Table.get? l.fields name = Table.get? l'.fields name
  state (key : String) : Option.Rel Json.Reordered (Table.get? (l.extraState.getD []) key)
    (Table.get? (l'.extraState.getD []) key)

theorem Label.Redrawn.refl (l : Label) : l.Redrawn l where
  kind := rfl
  fields _ := rfl
  state key := by
    cases Table.get? (l.extraState.getD []) key with
    | none => exact .none
    | some j => exact .some (.same j)

namespace Tree

/-- Two trees with the same blocks in the same places, up to their labels and the order of their
sockets. -/
inductive Redrawn : Tree → Tree → Prop
  | node {l l' : Label} {values values' statements statements' : Table (Option Tree)}
    {next next' : Option Tree} : l.Redrawn l' →
    (∀ socket, Option.Rel (Option.Rel Redrawn) (Table.get? values socket)
      (Table.get? values' socket)) →
    (∀ socket, Option.Rel (Option.Rel Redrawn) (Table.get? statements socket)
      (Table.get? statements' socket)) →
    Option.Rel Redrawn next next' →
    Redrawn (.node l values statements next) (.node l' values' statements' next')

theorem rel_get?_refl {sockets : Table (Option Tree)}
    (h : ∀ socket t, (socket, some t) ∈ sockets → Redrawn t t) (socket : String) :
    Option.Rel (Option.Rel Redrawn) (Table.get? sockets socket) (Table.get? sockets socket) := by
  cases hg : Table.get? sockets socket with
  | none => exact .none
  | some child =>
    cases child with
    | none => exact .some .none
    | some t => exact .some (.some (h socket t (Table.mem_of_get? hg)))

theorem Redrawn.refl (t : Tree) : t.Redrawn t := by
  induction t using Tree.induct with
  | node l values statements next ihv ihs ihn =>
    apply Redrawn.node (.refl l) (rel_get?_refl ihv) (rel_get?_refl ihs)
    cases next with
    | none => exact .none
    | some t => exact .some (ihn t rfl)

theorem sizeSockets_eq_sum {sockets : Table (Option Tree)} (h : (Table.keys sockets).Nodup) :
    sizeSockets sockets =
      ((Table.keys sockets).map fun s => sizeOption (Table.get? sockets s).join).sum := by
  induction sockets with
  | nil => rfl
  | cons e sockets ih =>
    obtain ⟨socket, child⟩ := e
    obtain ⟨hn, h⟩ := List.nodup_cons.1 h
    have hs : ∀ s ∈ Table.keys sockets,
        Table.get? ((socket, child) :: sockets) s = Table.get? sockets s := by
      intro s hs
      rw [Table.get?_cons, if_neg]
      rintro rfl
      exact hn hs
    change sizeOption child + sizeSockets sockets = sizeOption _ + (List.map _ _).sum
    rw [ih h, Table.get?_cons, if_pos rfl]
    congr 2
    apply List.map_congr_left
    intro s hm
    rw [hs s hm]

theorem sizeSockets_eq_of_rel {sockets sockets' : Table (Option Tree)}
    (h : ∀ socket, Option.Rel (Option.Rel Redrawn) (Table.get? sockets socket)
      (Table.get? sockets' socket))
    (hn : (Table.keys sockets).Nodup) (hn' : (Table.keys sockets').Nodup)
    (ih : ∀ socket, sizeOption (Table.get? sockets socket).join =
      sizeOption (Table.get? sockets' socket).join) :
    sizeSockets sockets = sizeSockets sockets' := by
  rw [sizeSockets_eq_sum hn, sizeSockets_eq_sum hn', List.map_congr_left fun s _ => ih s]
  exact ((Table.perm_keys_of_rel h hn hn').map _).sum_nat

theorem sizeOption_eq_of_rel {child child' : Option Tree} (h : Option.Rel Redrawn child child')
    (ih : ∀ t t', child = some t → child' = some t' → Redrawn t t' → t.size = t'.size) :
    sizeOption child = sizeOption child' := by
  cases h with
  | none => rfl
  | some hr => exact ih _ _ rfl rfl hr

theorem Redrawn.size_eq {t t' : Tree} (h : t.Redrawn t') (hp : t.All Placed)
    (hp' : t'.All Placed) : t.size = t'.size := by
  induction t using Tree.induct generalizing t' with
  | node l values statements next ihv ihs ihn =>
    cases h with
    | @node _ l' _ values' _ statements' _ next' hl hv hs hn =>
      have hsizev : sizeSockets values = sizeSockets values' := by
        apply sizeSockets_eq_of_rel hv hp.self.nodup_values hp'.self.nodup_values
        intro socket
        apply sizeOption_eq_of_rel (rel_join (hv socket))
        intro u u' hu hu' hr
        exact ihv socket u (Table.mem_of_join_get? hu) hr (hp.beneath.value? hu)
          (hp'.beneath.value? hu')
      have hsizes : sizeSockets statements = sizeSockets statements' := by
        apply sizeSockets_eq_of_rel hs hp.self.nodup_statements hp'.self.nodup_statements
        intro socket
        apply sizeOption_eq_of_rel (rel_join (hs socket))
        intro u u' hu hu' hr
        exact ihs socket u (Table.mem_of_join_get? hu) hr (hp.beneath.head? hu)
          (hp'.beneath.head? hu')
      have hsizen : sizeOption next = sizeOption next' := by
        apply sizeOption_eq_of_rel hn
        intro u u' hu hu' hr
        exact ihn u hu hr (hp.beneath.next u hu) (hp'.beneath.next u' hu')
      rw [size, size, hsizev, hsizes, hsizen]

/-- Two trees of the same blocks, with every socket where it belongs. Faults and events name blocks
by their ids, so they need not be the same. -/
def redrawing : Matching Tree Tree where
  refs t t' := t.All Placed ∧ t'.All Placed ∧ t.Redrawn t'
  active _ _ := True
  fault _ _ := True
  event _ _ := True
  fault_refl _ := trivial
  fault_trans _ _ := trivial

theorem answers_of_ok_iff {α β : Type} {R : α → β → Prop} {x : Except Fault α} {y : Except Fault β}
    (h : (∃ a, x = .ok a) ↔ ∃ b, y = .ok b) (hr : ∀ a b, x = .ok a → y = .ok b → R a b) :
    redrawing.Answers R x y := by
  cases x with
  | ok a =>
    obtain ⟨b, rfl⟩ := h.1 ⟨a, rfl⟩
    exact .ok (hr a b rfl rfl)
  | error f =>
    cases y with
    | ok b =>
      obtain ⟨a, ha⟩ := h.2 ⟨b, rfl⟩
      cases ha
    | error g => exact .error trivial

theorem rel_redrawing {child child' : Option Tree} (h : Option.Rel Redrawn child child')
    (hp : ∀ u, child = some u → u.All Placed) (hp' : ∀ u, child' = some u → u.All Placed) :
    Option.Rel redrawing.refs child child' := by
  cases h with
  | none => exact .none
  | some hr => exact .some ⟨hp _ rfl, hp' _ rfl, hr⟩

section

variable {t t' : Tree} (h : redrawing.refs t t')

include h

theorem rel_state? (key : String) :
    Option.Rel Json.Reordered (t.block.state? key) (t'.block.state? key) := by
  obtain ⟨-, -, h⟩ := h
  cases h with
  | node hl _ _ _ => exact hl.state key

theorem rel_value? (socket : String) :
    Option.Rel redrawing.refs (t.block.value? socket) (t'.block.value? socket) := by
  obtain ⟨hp, hp', h⟩ := h
  refine rel_redrawing ?_ (fun u hu => hp.beneath.value? hu) fun u hu => hp'.beneath.value? hu
  cases h with
  | node _ hv _ _ => exact rel_join (hv socket)

theorem rel_head? (socket : String) :
    Option.Rel redrawing.refs (t.block.head? socket) (t'.block.head? socket) := by
  obtain ⟨hp, hp', h⟩ := h
  refine rel_redrawing ?_ (fun u hu => hp.beneath.head? hu) fun u hu => hp'.beneath.head? hu
  cases h with
  | node _ _ hs _ => exact rel_join (hs socket)

theorem isSome_head?_redrawing (socket : String) :
    (t.block.head? socket).isSome = (t'.block.head? socket).isSome := by
  have hr := rel_head? h socket
  generalize t.block.head? socket = x at hr ⊢
  generalize t'.block.head? socket = y at hr ⊢
  cases hr <;> rfl

theorem hasElse_redrawing : StatementRule.hasElse t.block = StatementRule.hasElse t'.block := by
  have hs := rel_state? h "hasElse"
  rw [StatementRule.hasElse, StatementRule.hasElse, isSome_head?_redrawing h]
  generalize t.block.state? "hasElse" = x at hs ⊢
  generalize t'.block.state? "hasElse" = y at hs ⊢
  cases hs with
  | none => rfl
  | some hr => cases hr <;> rfl

theorem blocks_redrawing : redrawing.Blocks t.block t'.block := by
  have hlabel : t.block.kind = t'.block.kind ∧
      ∀ name, t.block.field? name = t'.block.field? name := by
    obtain ⟨-, -, h⟩ := h
    cases h with
    | node hl _ _ _ => exact ⟨hl.kind, hl.fields⟩
  have hnext : Option.Rel redrawing.refs t.block.next t'.block.next := by
    obtain ⟨hp, hp', h⟩ := h
    refine rel_redrawing ?_ hp.beneath.next hp'.beneath.next
    cases h with
    | node _ _ _ hn => exact hn
  exact ⟨hlabel.1, fun _ => trivial, fun _ => trivial, fun _ => trivial, hlabel.2,
    hasElse_redrawing h, rel_value? h, rel_head? h, hnext⟩

theorem count_redrawing (key : String) :
    redrawing.Answers Eq (t.block.count key) (t'.block.count key) := by
  have hs := rel_state? h key
  rw [Block.count, Block.count]
  generalize t.block.state? key = x at hs ⊢
  generalize t'.block.state? key = y at hs ⊢
  cases hs with
  | none => exact .ok rfl
  | some hr =>
    cases hr with
    | same =>
      rename_i j
      cases j with
      | int n =>
        dsimp only
        split
        · exact .error trivial
        · exact .ok rfl
      | _ => exact .error trivial
    | arr _ => exact .error trivial
    | obj _ => exact .error trivial

theorem mem_keys_values_redrawing (socket : String) :
    socket ∈ Table.keys t.block.values ↔ socket ∈ Table.keys t'.block.values := by
  obtain ⟨-, -, h⟩ := h
  cases h with
  | node _ hv _ _ => exact Table.mem_keys_iff_of_rel hv socket

theorem mem_sockets_redrawing (socket : String) :
    socket ∈ t.block.sockets ↔ socket ∈ t'.block.sockets := by
  rw [Block.sockets, Block.sockets, List.mem_append, List.mem_append,
    mem_keys_values_redrawing h socket]
  obtain ⟨-, -, h⟩ := h
  cases h with
  | node _ _ hs _ => exact or_congr_right (Table.mem_keys_iff_of_rel hs socket)

end

theorem exists_numbers_iff {names names' : List String} {digits? : String → Option (List Nat)}
    (h : ∀ name, name ∈ names ↔ name ∈ names') :
    (∃ ns, (names.filterMap digits?).mapM Block.socketNumber = .ok ns) ↔
      ∃ ns, (names'.filterMap digits?).mapM Block.socketNumber = .ok ns := by
  rw [exists_mapM_eq_ok_iff, exists_mapM_eq_ok_iff]
  simp only [List.mem_filterMap, h]

section

variable {t t' : Tree} (h : redrawing.refs t t')

include h

theorem slotCount_redrawing :
    redrawing.Answers Eq (ValueRule.slotCount t.block) (ValueRule.slotCount t'.block) := by
  have hc := count_redrawing h "itemCount"
  have hk := mem_keys_values_redrawing h
  apply answers_of_ok_iff
  · rw [ValueRule.exists_slotCount_iff, ValueRule.exists_slotCount_iff, exists_numbers_iff hk]
    exact and_congr_right fun _ => hc.exists_ok_iff
  · intro n n' hn hn'
    have he : t.block.count "itemCount" = t'.block.count "itemCount" := by
      obtain ⟨_, c, _, hb, _⟩ := ValueRule.slotCount_eq_ok hn
      obtain ⟨_, c', _, hb', _⟩ := ValueRule.slotCount_eq_ok hn'
      rw [hb, hb'] at hc ⊢
      cases hc with
      | ok he => exact congrArg _ he
    apply Nat.le_antisymm
    · exact ValueRule.slotCount_le (fun s => (hk s).1) he hn' hn
    · exact ValueRule.slotCount_le (fun s => (hk s).2) he.symm hn hn'

theorem branchIndices_redrawing :
    redrawing.Answers Eq (StatementRule.branchIndices t.block)
      (StatementRule.branchIndices t'.block) := by
  have hc := count_redrawing h "elseIfCount"
  have hs := mem_sockets_redrawing h
  apply answers_of_ok_iff
  · rw [StatementRule.exists_branchIndices_iff, StatementRule.exists_branchIndices_iff,
      exists_numbers_iff hs]
    exact and_congr_left fun _ => hc.exists_ok_iff
  · intro is is' hi hi'
    have he : t.block.count "elseIfCount" = t'.block.count "elseIfCount" := by
      obtain ⟨c, _, hb, _, _⟩ := StatementRule.branchIndices_eq_ok hi
      obtain ⟨c', _, hb', _, _⟩ := StatementRule.branchIndices_eq_ok hi'
      rw [hb, hb'] at hc ⊢
      cases hc with
      | ok he => exact congrArg _ he
    apply (StatementRule.pairwise_branchIndices hi).eq_of_mem_iff
      (StatementRule.pairwise_branchIndices hi')
    intro i
    constructor
    · exact fun hm => StatementRule.branchIndices_subset (fun s => (hs s).1) he hi' hi hm
    · exact fun hm => StatementRule.branchIndices_subset (fun s => (hs s).2) he.symm hi hi' hm

end

theorem diagrams_redrawing {ts ts' : List Tree} (h : List.Forall₂ redrawing.refs ts ts') :
    redrawing.Diagrams (diagram ts) (diagram ts') where
  nil := trivial
  cons _ _ := trivial
  tail _ := trivial
  tooDeep := trivial
  bound := by
    induction h with
    | nil => rfl
    | cons hr _ ih =>
      obtain ⟨hp, hp', hr⟩ := hr
      exact congrArg₂ (· + ·) (hr.size_eq hp hp') ih
  block := blocks_redrawing
  counts hr := ⟨fun _ => slotCount_redrawing hr, fun _ => branchIndices_redrawing hr⟩
  seen _ _ := by rw [seen_diagram, seen_diagram]

end Tree
end BlockMachine

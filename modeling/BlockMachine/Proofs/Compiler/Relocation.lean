import BlockMachine.Proofs.Block.Insertion
import BlockMachine.Proofs.Compiler.Recording
import BlockMachine.Proofs.Option

namespace BlockMachine

namespace Room

variable {ts us : List Tree} {k k' : Nat} {t : Tree}

theorem builders (ts us : List Tree) (k k' : Nat) (rs : List Tree) :
    ((coupling ts us).matching k k' rs).Builders .idle (Generator.ofDepth (Tree.diagram ts) k)
      (Generator.ofDepth (Tree.diagram us) k') :=
  (coupling ts us).builders k k' rs

theorem refs (h : Room ts k t) (h' : Room us k' t) (rs : List Tree) :
    ((coupling ts us).matching k k' rs).refs t t :=
  ⟨rfl, h, h'⟩

theorem blocks (h : Room ts k t) (h' : Room us k' t) (rs : List Tree) :
    ((coupling ts us).matching k k' rs).Blocks t.block t.block := by
  have hb := (builders ts us k k' rs).diagram.block (refs h h' rs)
  rw [Generator.diagram_ofDepth, Generator.diagram_ofDepth] at hb
  exact hb

theorem rel {top : Option Tree} (h : ∀ t, top = some t → Room ts k t ∧ Room us k' t)
    (rs : List Tree) : Option.Rel ((coupling ts us).matching k k' rs).refs top top := by
  cases top with
  | none => exact .none
  | some t => exact .some (refs (h t rfl).1 (h t rfl).2 rs)

theorem globalBlock_eq (h : Room ts k t) (h' : Room us k' t) :
    (Generator.ofDepth (Tree.diagram ts) k).globalBlock t =
      (Generator.ofDepth (Tree.diagram us) k').globalBlock t :=
  Coupling.eq_of_runs rfl fun rs => (builders ts us k k' rs).globalBlock (refs h h' rs)

theorem state_eq (h : Room ts k t) (h' : Room us k' t) :
    (Generator.ofDepth (Tree.diagram ts) k).state t.block =
      (Generator.ofDepth (Tree.diagram us) k').state t.block :=
  Coupling.eq_of_runs rfl fun rs => (builders ts us k k' rs).state (blocks h h' rs)

theorem sequence_eq {top : Option Tree} (h : ∀ t, top = some t → Room ts k t ∧ Room us k' t) :
    (Generator.ofDepth (Tree.diagram ts) k).sequence top =
      (Generator.ofDepth (Tree.diagram us) k').sequence top :=
  Coupling.eq_of_runs rfl fun rs => (builders ts us k k' rs).sequence (rel h rs)

theorem transition_eq (h : Room ts k t) (h' : Room us k' t) :
    Compile.visiting (Tree.diagram ts) t
        ((Generator.ofDepth (Tree.diagram ts) k).localTransition t.block) =
      Compile.visiting (Tree.diagram us) t
        ((Generator.ofDepth (Tree.diagram us) k').localTransition t.block) := by
  have hr (rs : List Tree) := (builders ts us k k' rs).transition (refs h h' rs)
  rw [Generator.diagram_ofDepth, Generator.diagram_ofDepth] at hr
  exact Coupling.eq_of_runs rfl hr

theorem interruptibleBy_eq {b b' : Block Tree}
    (hb : b'.head? "INTERRUPTIBLE_BY" = b.head? "INTERRUPTIBLE_BY")
    (h : ∀ t, b.head? "INTERRUPTIBLE_BY" = some t → Room ts k t ∧ Room us k' t) :
    (Tree.diagram us).interruptibleBy b' = (Tree.diagram ts).interruptibleBy b := by
  rw [Diagram.interruptibleBy, Diagram.interruptibleBy, hb,
    Tree.stack_eq fun t ht => (h t ht).1.bound, Tree.stack_eq fun t ht => (h t ht).2.bound]
  rfl

theorem preamble_eq {tops : List Tree} (h : ∀ t ∈ tops, Room ts k t ∧ Room us k' t) :
    (Generator.ofDepth (Tree.diagram ts) k).preamble tops =
      (Generator.ofDepth (Tree.diagram us) k').preamble tops := by
  have hs (rs : List Tree) : List.Forall₂ ((coupling ts us).matching k k' rs).refs tops tops :=
    List.forall₂_same.2 fun t ht => refs (h t ht).1 (h t ht).2 rs
  exact Coupling.eq_of_runs rfl fun rs => (builders ts us k k' rs).preamble (hs rs)

theorem statesFrom_eq (states : Table State) {tops : List Tree}
    (h : ∀ t ∈ tops, Room ts k t ∧ Room us k' t) :
    (Generator.ofDepth (Tree.diagram ts) k).statesFrom states tops =
      (Generator.ofDepth (Tree.diagram us) k').statesFrom states tops := by
  have hs (rs : List Tree) : List.Forall₂ ((coupling ts us).matching k k' rs).refs tops tops :=
    List.forall₂_same.2 fun t ht => refs (h t ht).1 (h t ht).2 rs
  exact Coupling.eq_of_runs rfl fun rs => (builders ts us k k' rs).statesFrom states (hs rs)

theorem active_localTransition (h : Room ts k t) (c : Context Tree) :
    ∃ c' : Context Tree, c'.active = c.active ∧
      ((∃ a, (Generator.ofDepth (Tree.diagram ts) k).localTransition t.block c = .ok a c') ∨
        ∃ f, (Generator.ofDepth (Tree.diagram ts) k).localTransition t.block c = .error f c') := by
  have hr := (builders ts ts k k c.active).localTransition (blocks h h c.active) c c
    ⟨rfl, ⟨rfl, (List.map_id c.active).symm⟩, List.forall₂_eq_eq_eq ▸ rfl⟩
  obtain ⟨-, c', hc, ⟨a, ha⟩ | ⟨f, hf, -⟩⟩ := Coupling.eq_of_ends (K := coupling ts ts) rfl hr
  · exact ⟨c', hc, .inl ⟨a, ha⟩⟩
  · exact ⟨c', hc, .inr ⟨f, hf⟩⟩

end Room

/-- Compilations that differ in the blocks being compiled only. -/
def aloof : Matching Tree Tree where
  refs := Eq
  active _ _ := True
  fault := Eq
  event := Eq
  fault_refl _ := rfl
  fault_trans := Eq.trans

theorem aloof_blocks (b : Block Tree) : aloof.Blocks b b where
  kind := rfl
  fault _ := rfl
  format _ := rfl
  event _ := rfl
  field? _ := rfl
  hasElse := rfl
  value? _ := rel_same (fun _ => rfl) _
  head? _ := rel_same (fun _ => rfl) _
  next := rel_same (fun _ => rfl) _

theorem aloof_diagrams (ts : List Tree) : aloof.Diagrams (Tree.diagram ts) (Tree.diagram ts) where
  nil := trivial
  cons _ _ := trivial
  tail _ := trivial
  tooDeep := rfl
  bound := rfl
  block := by
    rintro t _ rfl
    exact aloof_blocks _
  counts := by
    rintro t _ rfl
    exact ⟨fun _ => .of_eq rfl fun _ _ => rfl, fun _ => .of_eq rfl fun _ _ => rfl⟩
  seen _ _ := by rw [Tree.seen_diagram, Tree.seen_diagram]

theorem Room.transition_withNext {ts : List Tree} {k : Nat} {t : Tree} (h : Room ts k t)
    (next : Option Tree) :
    Compile.visiting (Tree.diagram ts) (t.withNext next)
        ((Generator.ofDepth (Tree.diagram ts) k).localTransition (t.withNext next).block) =
      Compile.visiting (Tree.diagram ts) t
        ((Generator.ofDepth (Tree.diagram ts) k).localTransition t.block) := by
  have hb : (Generator.ofDepth (Tree.diagram ts) k).localTransition (t.withNext next).block =
      (Generator.ofDepth (Tree.diagram ts) k).localTransition t.block := by
    cases t
    rfl
  funext c
  rw [hb, Compile.visiting, Compile.visiting, Tree.seen_diagram, Tree.seen_diagram]
  have hr := ((aloof_diagrams ts).ofDepth k).localTransition (aloof_blocks t.block)
    { c with active := t.withNext next :: c.active } { c with active := t :: c.active }
    ⟨rfl, trivial, List.forall₂_eq_eq_eq ▸ rfl⟩
  have hl {c₁ c₂ : Context Tree} (hc : aloof.Contexts c₁ c₂)
      (h₁ : c₁.active = t.withNext next :: c.active) (h₂ : c₂.active = t :: c.active) :
      Compile.leave c₁ = Compile.leave c₂ := by
    obtain ⟨definitions, active, events⟩ := c₁
    obtain ⟨definitions', active', events'⟩ := c₂
    obtain ⟨hd, -, he⟩ := hc
    obtain rfl : definitions = definitions' := hd
    obtain rfl : events = events' := List.forall₂_eq_eq_eq ▸ he
    change active = _ at h₁
    change active' = _ at h₂
    rw [Compile.leave, Compile.leave, h₁, h₂]
    rfl
  obtain ⟨c₁, h₁, hu⟩ := h.active_localTransition { c with active := t.withNext next :: c.active }
  obtain ⟨c₂, h₂, hv⟩ := h.active_localTransition { c with active := t :: c.active }
  rcases hu with ⟨a, hu⟩ | ⟨f, hu⟩
  · rcases hv with ⟨a', hv⟩ | ⟨f', hv⟩
    · rw [hu, hv] at hr
      rw [hu, hv]
      cases hr with
      | ok ha hc =>
        cases ha
        exact congrArg (EStateM.Result.ok a) (hl hc h₁ h₂)
    · rw [hu, hv] at hr
      cases hr
  · rcases hv with ⟨a', hv⟩ | ⟨f', hv⟩
    · rw [hu, hv] at hr
      cases hr
    · rw [hu, hv] at hr
      rw [hu, hv]
      cases hr with
      | error hf hc =>
        cases hf
        exact congrArg (EStateM.Result.error f) (hl hc h₁ h₂)

namespace Room

variable {ts us : List Tree} {k k' : Nat} {t : Tree} {next : Option Tree}

theorem bare (h : Room ts k (t.withNext next)) : Room ts k (t.withNext none) := by
  have hs : (t.withNext none).size ≤ (t.withNext next).size := by
    rw [Tree.withNext, Tree.withNext, Tree.size, Tree.size, Tree.sizeOption]
    omega
  exact ⟨Nat.le_trans hs h.depth, Nat.le_trans hs h.bound⟩

theorem self_bare (h : Room ts k t) : Room ts k (t.withNext none) :=
  bare (t.withNext_next.symm ▸ h : Room ts k (t.withNext t.next))

theorem globalBlock_moved (h : Room ts k t) (h' : Room us k' (t.withNext next)) :
    (Generator.ofDepth (Tree.diagram us) k').globalBlock (t.withNext next) =
      (Generator.ofDepth (Tree.diagram ts) k).globalBlock t := by
  have hn {vs : List Tree} {j : Nat} (u : Option Tree) :
      (Generator.ofDepth (Tree.diagram vs) j).globalBlock (t.withNext u) =
        (Generator.ofDepth (Tree.diagram vs) j).globalBlock (t.withNext none) := by
    cases j <;> rfl
  rw [hn, ← globalBlock_eq h.self_bare h'.bare, ← hn t.next, Tree.withNext_next]

theorem state_moved (h : Room ts k t) (h' : Room us k' (t.withNext next)) :
    (Generator.ofDepth (Tree.diagram us) k').state (t.withNext next).block =
      (Generator.ofDepth (Tree.diagram ts) k).state t.block := by
  have hn {vs : List Tree} {j : Nat} (u : Option Tree) :
      (Generator.ofDepth (Tree.diagram vs) j).state (t.withNext u).block =
        (Generator.ofDepth (Tree.diagram vs) j).state (t.withNext none).block := by
    cases j <;> rfl
  rw [hn, ← state_eq h.self_bare h'.bare, ← hn t.next, Tree.withNext_next]

theorem transition_moved (h : Room ts k t) (h' : Room us k' (t.withNext next)) :
    Compile.visiting (Tree.diagram us) (t.withNext next)
        ((Generator.ofDepth (Tree.diagram us) k').localTransition (t.withNext next).block) =
      Compile.visiting (Tree.diagram ts) t
        ((Generator.ofDepth (Tree.diagram ts) k).localTransition t.block) := by
  have hu := h'.bare.transition_withNext next
  rw [Tree.withNext_withNext] at hu
  rw [hu, ← transition_eq h.self_bare h'.bare, ← h.transition_withNext none]

end Room

end BlockMachine

import BlockMachine.Proofs.Block.Sketch

namespace BlockMachine

namespace Diagram

variable {ρ : Type} {d : Diagram ρ} {top : Option ρ} {rs rs' : List ρ} {r : ρ}

/-- One meets these blocks by following `next`, and then there are no more. -/
inductive Chain (d : Diagram ρ) : Option ρ → List ρ → Prop
  | nil : Chain d none []
  | cons {r : ρ} {rs : List ρ} : Chain d (d.block r).next rs → Chain d (some r) (r :: rs)

theorem chain_of_stackFrom {steps : Nat} {visited : List ρ}
    (h : d.stackFrom steps visited top = .ok rs) : d.Chain top rs := by
  induction steps generalizing visited top rs with
  | zero =>
    cases top with
    | none =>
      cases h
      exact .nil
    | some r => cases h
  | succ steps ih =>
    cases top with
    | none =>
      cases h
      exact .nil
    | some r =>
      rw [stackFrom] at h
      split at h
      · cases h
      · obtain ⟨rest, hs, rfl⟩ := map_eq_ok.1 h
        exact .cons (ih hs)

namespace Chain

theorem unique (h : d.Chain top rs) (h' : d.Chain top rs') : rs = rs' := by
  induction h generalizing rs' with
  | nil =>
    cases h'
    rfl
  | cons _ ih =>
    cases h' with
    | cons h' => rw [ih h']

theorem shorter (h : d.Chain top rs) (hr : r ∈ rs) :
    ∃ rest, d.Chain (d.block r).next rest ∧ rest.length < rs.length := by
  induction h with
  | nil => cases hr
  | @cons u us h ih =>
    rw [List.length_cons]
    rcases List.mem_cons.1 hr with rfl | hr
    · exact ⟨us, h, Nat.lt_succ_self _⟩
    · obtain ⟨rest, hn, hl⟩ := ih hr
      exact ⟨rest, hn, Nat.lt_succ_of_lt hl⟩

theorem nodup (h : d.Chain top rs) : rs.Nodup := by
  induction h with
  | nil => exact .nil
  | cons h ih =>
    apply List.nodup_cons.2
    refine ⟨fun hr => ?_, ih⟩
    obtain ⟨rest, hn, hl⟩ := h.shorter hr
    rw [h.unique hn] at hl
    exact Nat.lt_irrefl _ hl

end Chain
end Diagram

namespace Sketch

variable {s : Sketch} {top : Option (Fin s.size)} {rs visited : List (Fin s.size)}

theorem stackFrom_of_chain (h : s.diagram.Chain top rs) {steps : Nat} (hl : rs.length ≤ steps)
    (hv : ∀ r ∈ rs, r ∉ visited) : s.diagram.stackFrom steps visited top = .ok rs := by
  induction h generalizing steps visited with
  | nil => cases steps <;> rfl
  | @cons r rs h ih =>
    obtain ⟨hr, hrs⟩ := List.forall_mem_cons.1 hv
    cases steps with
    | zero => cases hl
    | succ steps =>
      have hrest : ∀ u ∈ rs, u ∉ r :: visited := by
        intro u hu hm
        rcases List.mem_cons.1 hm with rfl | hm
        · exact (List.nodup_cons.1 (Diagram.Chain.cons h).nodup).1 hu
        · exact hrs u hu hm
      rw [Diagram.stackFrom, seen_of_not_mem hr, ih (Nat.le_of_succ_le_succ hl) hrest]
      rfl

theorem stack_eq_ok_iff : s.diagram.stack top = .ok rs ↔ s.diagram.Chain top rs := by
  constructor
  · exact Diagram.chain_of_stackFrom
  · intro h
    apply stackFrom_of_chain h (Nat.le_succ_of_le (length_le h.nodup))
    intro r _ hm
    cases hm

end Sketch
end BlockMachine

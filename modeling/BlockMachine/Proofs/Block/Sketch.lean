import Mathlib.Data.Fintype.Card
import Mathlib.Logic.Relation
import BlockMachine.Proofs.Block.Stack
import BlockMachine.Proofs.Block.Wiring
import BlockMachine.Proofs.Except

namespace BlockMachine

theorem Tree.size_lt_of_links {t u : Tree} (h : t.block.Links u) : u.size < t.size := by
  cases h with
  | value hm => exact size_lt_of_mem_values hm
  | statement hm => exact size_lt_of_mem_statements hm
  | next hn => exact size_lt_of_next hn

namespace Sketch

variable {s : Sketch} {rs visited : List (Fin s.size)} {k k' steps steps' : Nat}
  {r : Fin s.size}

def within (s : Sketch) (bound : Nat) : Diagram (Fin s.size) := { s.diagram with bound }

theorem length_le (h : rs.Nodup) : rs.length ≤ s.size := by
  simpa using h.length_le_card

theorem not_mem_of_not_seen (h : s.diagram.seen r rs = false) : r ∉ rs := by
  intro hm
  rw [Diagram.seen, List.any_eq_false] at h
  exact h r hm (beq_iff_eq.2 rfl)

theorem seen_of_not_mem (h : r ∉ rs) : s.diagram.seen r rs = false := by
  rw [Diagram.seen, List.any_eq_false]
  intro u hu he
  exact h (beq_iff_eq.1 he ▸ hu)

/-- The blocks are different, and more steps are left than there are others. -/
structure Ample (s : Sketch) (k : Nat) (rs : List (Fin s.size)) : Prop where
  nodup : rs.Nodup
  left : s.size < k + rs.length

namespace Ample

theorem start (h : s.size ≤ k) (hn : rs.Nodup) : s.Ample (k + 1) rs := ⟨hn, by omega⟩

theorem pos (h : s.Ample k rs) : 0 < k := by
  have := length_le h.nodup
  have := h.left
  omega

theorem inside (h : s.Ample (k + 1) rs) (hn : s.diagram.seen r rs = false) :
    s.Ample k (r :: rs) := by
  refine ⟨List.nodup_cons.2 ⟨not_mem_of_not_seen hn, h.nodup⟩, ?_⟩
  have := h.left
  rw [List.length_cons]
  omega

theorem succ (h : s.Ample k rs) : s.Ample (k + 1) rs :=
  ⟨h.nodup, by have := h.left; omega⟩

end Ample

theorem stackFrom_stable {bound : Nat} (h : s.Ample steps visited) (h' : s.Ample steps' visited)
    (top : Option (Fin s.size)) :
    (s.within bound).stackFrom steps visited top = s.diagram.stackFrom steps' visited top ∧
      s.diagram.stackFrom steps' visited top ≠ .error (.defect .tooDeep) := by
  induction steps generalizing steps' visited top with
  | zero => exact absurd h.pos (Nat.lt_irrefl 0)
  | succ steps ih =>
    cases steps' with
    | zero => exact absurd h'.pos (Nat.lt_irrefl 0)
    | succ steps' =>
      cases top with
      | none => exact ⟨rfl, by rintro ⟨⟩⟩
      | some r =>
        rw [Diagram.stackFrom, Diagram.stackFrom]
        change (if s.diagram.seen r visited then _ else _) = _ ∧ _
        cases hn : s.diagram.seen r visited with
        | true => exact ⟨rfl, by rintro ⟨⟩⟩
        | false =>
          obtain ⟨heq, hne⟩ := ih (h.inside hn) (h'.inside hn) (s.block r).next
          refine ⟨congrArg (Except.map (r :: ·)) heq, fun he => hne ?_⟩
          exact map_eq_error.1 he

theorem stack_within {bound : Nat} (hb : s.size ≤ bound) (top : Option (Fin s.size)) :
    (s.within bound).stack top = s.diagram.stack top ∧
      s.diagram.stack top ≠ .error (.defect .tooDeep) :=
  stackFrom_stable (.start hb .nil) (.start (Nat.le_refl s.size) .nil) top

/-- Block `u` stands in a socket of block `r` or right below it. -/
def Link (s : Sketch) (r u : Fin s.size) : Prop := (s.block r).Links u

def Acyclic (s : Sketch) : Prop := ∀ r, ¬ Relation.TransGen s.Link r r

theorem acyclic_of_lt (h : ∀ r u, (s.block r).Links u → r < u) : s.Acyclic := by
  have hlt {r u : Fin s.size} (hu : Relation.TransGen s.Link r u) : r < u := by
    induction hu with
    | single hu => exact h _ _ hu
    | tail _ hu ih => exact Nat.lt_trans ih (h _ _ hu)
  intro r hr
  exact Nat.lt_irrefl _ (hlt hr)

/-- All the blocks stand around or above `r`. -/
def Above (s : Sketch) (rs : List (Fin s.size)) (r : Fin s.size) : Prop :=
  ∀ q ∈ rs, Relation.TransGen s.Link q r

/-- The tree of a block, without what is deeper. -/
def unfoldTo (s : Sketch) : Nat → Fin s.size → Tree
  | 0, r => .node (s.block r).toLabel [] [] none
  | depth + 1, r =>
    let b := (s.block r).map (s.unfoldTo depth)
    .node b.toLabel b.values b.statements b.next

/-- The tree of a block. A block that is shared stands in the tree once for each way to it. -/
def unfold (s : Sketch) (r : Fin s.size) : Tree := s.unfoldTo s.size r

namespace Above

theorem nil (r : Fin s.size) : s.Above [] r := nofun

theorem beside {u : Fin s.size} (h : s.Above rs r) (hu : s.Link r u) : s.Above rs u :=
  fun q hq => (h q hq).tail hu

theorem inside {u : Fin s.size} (h : s.Above rs r) (hu : s.Link r u) : s.Above (r :: rs) u :=
  List.forall_mem_cons.2 ⟨.single hu, h.beside hu⟩

theorem not_seen (h : s.Above rs r) (hs : s.Acyclic) : s.diagram.seen r rs = false :=
  seen_of_not_mem fun hr => hs r (h r hr)

end Above

theorem unfoldTo_congr {depth depth' : Nat}
    (h : ∀ u, s.Link r u → s.unfoldTo depth u = s.unfoldTo depth' u) :
    s.unfoldTo (depth + 1) r = s.unfoldTo (depth' + 1) r := by
  have hm : (s.block r).map (s.unfoldTo depth) = (s.block r).map (s.unfoldTo depth') :=
    Block.map_congr h
  rw [unfoldTo, unfoldTo, hm]

theorem unfoldTo_succ (hs : s.Acyclic) (h : s.Ample (k + 1) rs) (ha : s.Above rs r) :
    s.unfoldTo k r = s.unfoldTo (k + 1) r := by
  induction k generalizing rs r with
  | zero => exact absurd (h.inside (ha.not_seen hs)).pos (Nat.lt_irrefl 0)
  | succ k ih =>
    apply unfoldTo_congr
    intro u hu
    exact ih (h.inside (ha.not_seen hs)) (ha.inside hu)

theorem block_unfold (hs : s.Acyclic) (r : Fin s.size) :
    (s.unfold r).block = (s.block r).map s.unfold := by
  have hu := unfoldTo_succ hs (.start (Nat.le_refl s.size) .nil) (.nil r)
  rw [unfold, hu]
  rfl

theorem size_unfold_lt (hs : s.Acyclic) {u : Fin s.size} (h : s.Link r u) :
    (s.unfold u).size < (s.unfold r).size := by
  apply Tree.size_lt_of_links
  rw [block_unfold hs]
  exact h.map

theorem stackFrom_unfold (hs : s.Acyclic) (h : s.Ample steps visited) (ha : s.Above visited r) :
    ∃ rs, s.diagram.stackFrom steps visited (some r) = .ok rs ∧
      rs.map s.unfold = (s.unfold r).stacked := by
  induction steps generalizing visited r with
  | zero => exact absurd h.pos (Nat.lt_irrefl 0)
  | succ steps ih =>
    have hn := ha.not_seen hs
    rw [Diagram.stackFrom, hn, Tree.stacked_eq, block_unfold hs]
    change ∃ rs, Except.map _ (s.diagram.stackFrom steps (r :: visited) (s.block r).next) = _ ∧
      _ = _ :: Tree.stackedOption ((s.block r).next.map s.unfold)
    cases hu : (s.block r).next with
    | none =>
      refine ⟨[r], ?_, ?_⟩
      · cases steps <;> rfl
      · rw [Option.map_none, Tree.stackedOption]
        rfl
    | some u =>
      obtain ⟨rs, hrs, he⟩ := ih (h.inside hn) (ha.inside (.next hu))
      refine ⟨r :: rs, ?_, ?_⟩
      · rw [hrs]
        rfl
      · rw [List.map_cons, he, Option.map_some, Tree.stackedOption]

theorem stack_unfold (hs : s.Acyclic) (r : Fin s.size) :
    ∃ rs, s.diagram.stack (some r) = .ok rs ∧ rs.map s.unfold = (s.unfold r).stacked :=
  stackFrom_unfold hs (.start (Nat.le_refl s.size) .nil) (.nil r)

end Sketch
end BlockMachine

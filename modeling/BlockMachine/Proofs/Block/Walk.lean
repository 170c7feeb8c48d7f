import BlockMachine.Proofs.Block.Chain
import Mathlib.Data.Nat.Periodic

namespace BlockMachine

namespace Diagram

variable {ρ : Type} {d : Diagram ρ} {top : Option ρ} {r : ρ} {rs visited : List ρ} {n : Nat}

/-- The block that so many steps lead to, unless the walk has come to its end before. -/
def walk (d : Diagram ρ) (top : Option ρ) : Nat → Option ρ
  | 0 => top
  | n + 1 => (d.walk top n).bind fun r => (d.block r).next

/-- The walk meets `r` twice, and no block has been met twice when it meets `r` again. -/
def FirstMetAgain (d : Diagram ρ) (top : Option ρ) (r : ρ) : Prop :=
  ∃ first again, first < again ∧ d.walk top first = some r ∧ d.walk top again = some r ∧
    ∀ i j, i < j → j < again → d.walk top i ≠ d.walk top j

/-- Some steps lead from `r` back to it. -/
def OnCircle (d : Diagram ρ) (r : ρ) : Prop := ∃ n, d.walk (some r) (n + 1) = some r

/-- The walk comes to `r`, which is on a circle, and before it to blocks that are not. -/
def EntersAt (d : Diagram ρ) (top : Option ρ) (r : ρ) : Prop :=
  d.OnCircle r ∧ ∃ n, d.walk top n = some r ∧ ∀ k q, k < n → d.walk top k = some q → ¬ d.OnCircle q

/-- A list that leads from `top` to the end: each block is followed by the block below it, the last
one has none below it, and no block is in the list twice. -/
structure Descent (d : Diagram ρ) (top : Option ρ) (rs : List ρ) : Prop where
  head : rs.head? = top
  linked : rs.IsChain fun r u => (d.block r).next = some u
  last : ∀ r ∈ rs.getLast?, (d.block r).next = none
  nodup : rs.Nodup

theorem walk_add (m n : Nat) : d.walk top (m + n) = d.walk (d.walk top m) n := by
  induction n with
  | zero => rfl
  | succ n ih => rw [← Nat.add_assoc, walk, walk, ih]

theorem walk_succ (r : ρ) (n : Nat) : d.walk (some r) (n + 1) = d.walk (d.block r).next n := by
  rw [Nat.add_comm, walk_add]
  rfl

theorem Chain.walk_length (h : d.Chain top rs) : d.walk top rs.length = none := by
  induction h with
  | nil => rfl
  | cons _ ih => rw [List.length_cons, walk_succ, ih]

theorem exists_chain_of_walk (h : d.walk top n = none) : ∃ rs, d.Chain top rs := by
  induction n generalizing top with
  | zero =>
    change top = none at h
    subst top
    exact ⟨[], .nil⟩
  | succ n ih =>
    cases top with
    | none => exact ⟨[], .nil⟩
    | some r =>
      rw [walk_succ] at h
      obtain ⟨rs, hrs⟩ := ih h
      exact ⟨r :: rs, .cons hrs⟩

theorem Chain.head?_eq (h : d.Chain top rs) : rs.head? = top := by
  cases h <;> rfl

theorem Chain.descent (h : d.Chain top rs) : d.Descent top rs := by
  refine ⟨h.head?_eq, ?_, ?_, h.nodup⟩
  · induction h with
    | nil => exact .nil
    | @cons r rs h ih =>
      apply List.isChain_cons.2
      refine ⟨?_, ih⟩
      intro u hu
      rw [← h.head?_eq, hu]
  · induction h with
    | nil =>
      intro r hr
      cases hr
    | @cons r rs h ih =>
      cases rs with
      | nil =>
        intro u hu
        cases hu
        exact h.head?_eq.symm
      | cons u us => exact ih

/-- The blocks of the first steps, all of them different. -/
structure Trail (d : Diagram ρ) (top : Option ρ) (n : Nat) (visited : List ρ) : Prop where
  mem_iff : ∀ r, r ∈ visited ↔ ∃ k < n, d.walk top k = some r
  distinct : ∀ i j, i < j → j < n → d.walk top i ≠ d.walk top j

namespace Trail

theorem start : d.Trail top 0 [] := by
  constructor
  · intro r
    constructor
    · intro hr
      cases hr
    · rintro ⟨k, hk, -⟩
      cases hk
  · intro i j _ hj
    cases hj

theorem step (h : d.Trail top n visited) (hw : d.walk top n = some r) (hr : r ∉ visited) :
    d.Trail top (n + 1) (r :: visited) := by
  constructor
  · intro u
    rw [List.mem_cons, h.mem_iff]
    constructor
    · rintro (rfl | ⟨k, hk, hu⟩)
      · exact ⟨n, Nat.lt_succ_self n, hw⟩
      · exact ⟨k, Nat.lt_succ_of_lt hk, hu⟩
    · rintro ⟨k, hk, hu⟩
      rcases Nat.lt_succ_iff_lt_or_eq.1 hk with hk | rfl
      · exact .inr ⟨k, hk, hu⟩
      · rw [hw] at hu
        exact .inl (Option.some.inj hu).symm
  · intro i j hij hj
    rcases Nat.lt_succ_iff_lt_or_eq.1 hj with hj | rfl
    · exact h.distinct i j hij hj
    · intro he
      rw [hw] at he
      exact hr ((h.mem_iff r).2 ⟨i, hij, he⟩)

theorem firstMetAgain (h : d.Trail top n visited) (hw : d.walk top n = some r)
    (hr : r ∈ visited) : d.FirstMetAgain top r := by
  obtain ⟨k, hk, hkr⟩ := (h.mem_iff r).1 hr
  exact ⟨k, n, hk, hkr, hw, h.distinct⟩

end Trail

theorem periodic_walk (h : d.walk (some r) n = some r) :
    Function.Periodic (d.walk (some r)) n := by
  intro m
  rw [Nat.add_comm, walk_add, h]

theorem FirstMetAgain.entersAt (h : d.FirstMetAgain top r) : d.EntersAt top r := by
  obtain ⟨first, again, hlt, hf, ha, hd⟩ := h
  obtain ⟨p, rfl⟩ := Nat.exists_eq_add_of_lt hlt
  have hafter (n : Nat) : d.walk top (first + n) = d.walk (some r) n := by
    rw [walk_add, hf]
  have hr : d.walk (some r) (p + 1) = some r := by
    rw [← hafter]
    exact ha
  refine ⟨⟨p, hr⟩, first, hf, ?_⟩
  -- If an earlier `q` were on a circle too, the walk would still meet it after `first`, so by the
  -- period also between the two meetings of `r`, where every block is new.
  rintro k q hk hq ⟨m, hm⟩
  have hle : first ≤ k + first * (m + 1) := by
    rw [Nat.mul_succ]
    omega
  obtain ⟨x, hx⟩ := Nat.exists_eq_add_of_le hle
  have hback : d.walk top (first + x % (p + 1)) = some q :=
    calc d.walk top (first + x % (p + 1))
      _ = d.walk (some r) (x % (p + 1)) := hafter _
      _ = d.walk (some r) x := (periodic_walk hr).map_mod_nat x
      _ = d.walk top (k + first * (m + 1)) := by rw [hx, hafter]
      _ = d.walk (some q) (first * (m + 1)) := by rw [walk_add, hq]
      _ = some q := (periodic_walk hm).nat_mul_eq first
  have hmod : x % (p + 1) < p + 1 := Nat.mod_lt _ (Nat.succ_pos p)
  exact hd k (first + x % (p + 1)) (by omega) (by omega) (hq.trans hback.symm)

end Diagram

namespace Sketch

variable {s : Sketch} {top : Option (Fin s.size)} {visited : List (Fin s.size)} {steps n : Nat}

theorem mem_of_seen {r : Fin s.size} (h : s.diagram.seen r visited = true) : r ∈ visited := by
  obtain ⟨u, hu, he⟩ := List.any_eq_true.1 h
  rw [beq_iff_eq.1 he]
  exact hu

theorem stackFrom_eq_error {f : Fault} (ht : s.diagram.Trail top n visited)
    (ha : s.Ample steps visited)
    (h : s.diagram.stackFrom steps visited (s.diagram.walk top n) = .error f) :
    ∃ r, f = .rule (.cycle (s.diagram.site r)) ∧ s.diagram.FirstMetAgain top r := by
  induction steps generalizing visited n with
  | zero => exact absurd ha.pos (Nat.lt_irrefl 0)
  | succ steps ih =>
    cases hw : s.diagram.walk top n with
    | none =>
      rw [hw] at h
      cases h
    | some r =>
      rw [hw, Diagram.stackFrom] at h
      cases hs : s.diagram.seen r visited with
      | true =>
        rw [hs] at h
        cases h
        exact ⟨r, rfl, ht.firstMetAgain hw (mem_of_seen hs)⟩
      | false =>
        rw [hs] at h
        have hnext : s.diagram.walk top (n + 1) = (s.block r).next := by
          rw [Diagram.walk, hw]
          rfl
        apply ih (ht.step hw (not_mem_of_not_seen hs)) (ha.inside hs)
        rw [hnext]
        exact map_eq_error.1 h

theorem exists_walk_eq_none_iff :
    (∃ n, s.diagram.walk top n = none) ↔ ∃ rs, s.diagram.stack top = .ok rs := by
  constructor
  · rintro ⟨n, hn⟩
    obtain ⟨rs, hrs⟩ := Diagram.exists_chain_of_walk hn
    exact ⟨rs, stack_eq_ok_iff.2 hrs⟩
  · rintro ⟨rs, hrs⟩
    exact ⟨rs.length, (stack_eq_ok_iff.1 hrs).walk_length⟩

/-- A stack is found exactly if the walk from its top comes to an end, and it leads there. Otherwise
the search fails at the first block that the walk meets again, where it enters a circle. -/
theorem stack_along_walk (s : Sketch) (top : Option (Fin s.size)) :
    ((∃ n, s.diagram.walk top n = none) ↔
      ∃ rs, s.diagram.stack top = .ok rs ∧ s.diagram.Descent top rs) ∧
    ((∀ n, s.diagram.walk top n ≠ none) ↔
      ∃ r, s.diagram.stack top = .error (.rule (.cycle (s.diagram.site r))) ∧
        s.diagram.FirstMetAgain top r ∧ s.diagram.EntersAt top r) := by
  constructor
  · rw [exists_walk_eq_none_iff]
    constructor
    · rintro ⟨rs, hrs⟩
      exact ⟨rs, hrs, (stack_eq_ok_iff.1 hrs).descent⟩
    · rintro ⟨rs, hrs, -⟩
      exact ⟨rs, hrs⟩
  · rw [← not_exists, exists_walk_eq_none_iff]
    constructor
    · intro hn
      cases hs : s.diagram.stack top with
      | ok rs => exact absurd ⟨rs, hs⟩ hn
      | error f =>
        obtain ⟨r, rfl, hr⟩ :=
          stackFrom_eq_error Diagram.Trail.start (.start (Nat.le_refl s.size) .nil) hs
        exact ⟨r, rfl, hr, hr.entersAt⟩
    · rintro ⟨r, hr, -⟩ ⟨rs, hrs⟩
      rw [hr] at hrs
      cases hrs

-- The outer two blocks look alike but are two; the one in the middle is where the circle begins.
example :
    (Sketch.diagram ⟨3, fun r =>
      { kind := "api_fire", id := some (if r = 1 then "b" else "a"),
        next := some (if r = 2 then 1 else r + 1) }⟩).stack (some (0 : Fin 3)) =
      .error (.rule (.cycle ⟨some "b", "api_fire"⟩)) := rfl

end Sketch
end BlockMachine

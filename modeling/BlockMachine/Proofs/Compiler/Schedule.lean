import BlockMachine.Proofs.Compiler.Demands
import BlockMachine.Block.Tree

namespace BlockMachine

namespace Tree

def inSocket (t : Tree) (place : Place) (socket : String) : List Position :=
  (t.block.value? socket).toList.map (⟨place, ·⟩)

/-- The blocks of a stack that are read, in their place. -/
def inStack (t : Tree) (e : String × Place) : List Position := (t.readStack e.1).map (⟨e.2, ·⟩)

def inBranch (t : Tree) (i : Nat) : List Position :=
  t.inSocket .value ("IF" ++ decimalText i) ++ t.inStack ("DO" ++ decimalText i, .statement)

variable {t u : Tree}

theorem size_lt_of_mem_inSocket {place : Place} {socket : String} {q : Position}
    (h : q ∈ t.inSocket place socket) : q.tree.size < t.size := by
  obtain ⟨u, hu, rfl⟩ := List.mem_map.1 h
  exact size_lt_of_mem_values (Table.mem_of_join_get? (Option.mem_toList.1 hu))

theorem upToReturn_subset (ts : List Tree) : upToReturn ts ⊆ ts := by
  induction ts with
  | nil => exact List.Subset.refl _
  | cons t ts ih =>
    rw [upToReturn]
    split
    · exact List.cons_subset_cons t (List.nil_subset ts)
    · exact List.cons_subset_cons t ih

theorem exists_head_of_mem_readStack {socket : String} (h : u ∈ t.readStack socket) :
    ∃ v, t.block.head? socket = some v ∧ u.Within v := by
  have hm : u ∈ stackedOption (t.block.head? socket) := by
    rw [readStack] at h
    split at h
    · exact upToReturn_subset _ h
    · exact h
  cases hh : t.block.head? socket with
  | none =>
    rw [hh, stackedOption] at hm
    cases hm
  | some v =>
    rw [hh, stackedOption] at hm
    exact ⟨v, rfl, within_of_mem_stacked hm⟩

theorem size_lt_of_mem_readStack {socket : String} (h : u ∈ t.readStack socket) :
    u.size < t.size := by
  obtain ⟨v, hv, hu⟩ := exists_head_of_mem_readStack h
  have hs := size_lt_of_mem_statements (Table.mem_of_join_get? hv)
  exact Nat.lt_of_le_of_lt (size_le_of_within hu) hs

theorem size_lt_of_mem_inStack {e : String × Place} {q : Position} (h : q ∈ t.inStack e) :
    q.tree.size < t.size := by
  obtain ⟨u, hu, rfl⟩ := List.mem_map.1 h
  exact size_lt_of_mem_readStack hu

end Tree

namespace Position

variable {p q : Position}

/-- What is read from a position, in the order in which it is compiled: like `reads`, but that each
body stands behind its condition. -/
def parts (p : Position) : List Position :=
  if p.place = .statement ∧ p.tree.block.kind = "controls_if" then
    match StatementRule.branchIndices p.tree.block with
    | .ok is => is.flatMap p.tree.inBranch ++ p.tree.inStack ("ELSE", .statement)
    | .error _ => []
  else p.reads

theorem reads_of_placed (h : p.tree.block.kind ∈ p.place.kinds) :
    p.reads = p.tree.block.readValues.flatMap (p.tree.inSocket (p.place.inner p.tree.block.site)) ++
      p.tree.block.readStacks.flatMap p.tree.inStack := by
  rw [reads, if_pos h]
  rfl

theorem parts_of_branches {t : Tree} {is : List Nat} (hk : t.block.kind = "controls_if")
    (hi : StatementRule.branchIndices t.block = .ok is) :
    (⟨.statement, t⟩ : Position).parts =
      is.flatMap t.inBranch ++ t.inStack ("ELSE", .statement) := by
  rw [parts, if_pos ⟨rfl, hk⟩, hi]

theorem reads_of_branches {t : Tree} (hk : t.block.kind = "controls_if") :
    (⟨.statement, t⟩ : Position).reads =
      match StatementRule.branchIndices t.block with
      | .ok is => is.flatMap (fun i : Nat => t.inSocket .value ("IF" ++ decimalText i)) ++
        (is.flatMap (fun i : Nat => t.inStack ("DO" ++ decimalText i, .statement)) ++
          t.inStack ("ELSE", .statement))
      | .error _ => [] := by
  have hm : t.block.kind ∈ Place.statement.kinds := by
    rw [hk]
    decide
  have hl : t.block.kind ≠ "lists_create_with" := by
    rw [hk]
    decide
  rw [reads_of_placed hm, Block.readValues, if_neg hl, if_pos hk, Block.readStacks, if_pos hk]
  cases StatementRule.branchIndices t.block with
  | error f => rfl
  | ok is =>
    dsimp only
    rw [List.flatMap_map, List.flatMap_append, List.flatMap_map, List.flatMap_singleton]
    rfl

theorem mem_parts : q ∈ p.parts ↔ q ∈ p.reads := by
  by_cases h : p.place = .statement ∧ p.tree.block.kind = "controls_if"
  · obtain ⟨place, t⟩ := p
    obtain ⟨rfl, hk⟩ := h
    rw [reads_of_branches hk, parts, if_pos ⟨rfl, hk⟩]
    dsimp only
    cases StatementRule.branchIndices t.block with
    | error f => rfl
    | ok is =>
      simp only [List.mem_append, List.mem_flatMap, Tree.inBranch, ← or_assoc, and_or_left,
        exists_or]
  · rw [parts, if_neg h]

theorem size_lt_of_mem_parts (h : q ∈ p.parts) : q.tree.size < p.tree.size := by
  rw [mem_parts] at h
  by_cases hk : p.tree.block.kind ∈ p.place.kinds
  · rw [reads_of_placed hk] at h
    rcases List.mem_append.1 h with h | h
    · obtain ⟨_, -, h⟩ := List.mem_flatMap.1 h
      exact Tree.size_lt_of_mem_inSocket h
    · obtain ⟨_, -, h⟩ := List.mem_flatMap.1 h
      exact Tree.size_lt_of_mem_inStack h
  · rw [reads, if_neg hk] at h
    cases h

/-- The positions that are compiled from a position on, in the order in which they are finished. -/
def finished (p : Position) : List Position := p.parts.attach.flatMap (fun q => q.1.finished) ++ [p]
termination_by p.tree.size
decreasing_by exact size_lt_of_mem_parts q.2

theorem finished_eq (p : Position) : p.finished = p.parts.flatMap finished ++ [p] := by
  rw [finished]
  conv_rhs => rw [← List.attach_map_subtype_val p.parts, List.flatMap_map]

theorem mem_finished_iff : q ∈ p.finished ↔ p.Reaches q := by
  induction hn : p.tree.size using Nat.strongRecOn generalizing p with
  | _ n ih =>
    subst hn
    rw [finished_eq, List.mem_append, List.mem_singleton]
    constructor
    · rintro (h | rfl)
      · obtain ⟨r, hr, h⟩ := List.mem_flatMap.1 h
        exact .head (mem_parts.1 hr) ((ih _ (size_lt_of_mem_parts hr) rfl).1 h)
      · exact .refl
    · intro h
      rcases Relation.ReflTransGen.cases_head h with rfl | ⟨r, hr, h⟩
      · exact .inr rfl
      · have hr := mem_parts.2 hr
        exact .inl (List.mem_flatMap.2 ⟨r, hr, (ih _ (size_lt_of_mem_parts hr) rfl).2 h⟩)

theorem append_eq_append_cons {xs ys before after : List Position}
    (h : xs ++ ys = before ++ q :: after) :
    (∃ late, xs = before ++ q :: late) ∨ ∃ late, before = xs ++ late ∧ ys = late ++ q :: after := by
  rcases List.append_eq_append_iff.1 h with ⟨late, hb, hy⟩ | ⟨early, hx, hy⟩
  · exact .inr ⟨late, hb, hy⟩
  · cases early with
    | nil =>
      rw [List.append_nil] at hx
      exact .inr ⟨[], by rw [hx, List.append_nil], hy.symm⟩
    | cons e early =>
      cases hy
      exact .inl ⟨early, hx⟩

theorem suffix_of_flatMap {ps : List Position} {r : List Position}
    (hf : ∀ p ∈ ps, ∀ before after, p.finished = before ++ q :: after → r <:+ before)
    {before after : List Position} (h : ps.flatMap finished = before ++ q :: after) :
    r <:+ before := by
  induction ps generalizing before with
  | nil =>
    rw [List.flatMap_nil] at h
    exact absurd h.symm (List.append_ne_nil_of_right_ne_nil before (List.cons_ne_nil q after))
  | cons p ps ih =>
    obtain ⟨hp, hps⟩ := List.forall_mem_cons.1 hf
    rw [List.flatMap_cons] at h
    rcases append_eq_append_cons h with ⟨late, hx⟩ | ⟨late, rfl, hy⟩
    · exact hp _ _ hx
    · exact (ih hps hy).trans (List.suffix_append _ _)

theorem suffix_of_finished {before after : List Position}
    (h : p.finished = before ++ q :: after) : q.parts.flatMap finished <:+ before := by
  induction hn : p.tree.size using Nat.strongRecOn generalizing p before after with
  | _ n ih =>
    subst hn
    rw [finished_eq] at h
    rcases append_eq_append_cons h with ⟨late, hx⟩ | ⟨late, hb, hy⟩
    · exact suffix_of_flatMap (fun r hr _ _ hs => ih _ (size_lt_of_mem_parts hr) hs rfl) hx
    · cases late with
      | nil =>
        cases hy
        obtain rfl : before = q.parts.flatMap finished := hb.trans (List.append_nil _)
        exact List.suffix_refl _
      | cons e late =>
        have hl := congrArg List.length hy
        simp at hl

end Position

/-- Where a program is compiled from: the definitions beside its root, then the root. -/
def Position.entrances (root : Tree) (beside : List Tree) : List Position :=
  beside.flatMap (fun top =>
    (top.stacked.filter (·.block.kind ∈ Catalog.definitionKinds)).map (⟨.statement, ·⟩)) ++
  [⟨.root, root⟩]

end BlockMachine

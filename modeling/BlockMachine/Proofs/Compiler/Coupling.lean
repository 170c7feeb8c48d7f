import BlockMachine.Proofs.Block.Wiring
import BlockMachine.Proofs.Compiler.Simulation

namespace BlockMachine

variable {ρ σ α β : Type}

theorem Block.InvalidCount.ne_tooDeep {b : Block ρ} {key : String} {names : List String}
    {digits? : String → Option (List Nat)} {f : Fault} (h : b.InvalidCount key names digits? f) :
    f ≠ .defect .tooDeep := by
  cases h <;> nofun

/-- A diagram under a watch, and another one that holds an image of each of its blocks. `valid k k'
rs r` says that block `r` may be compiled with depths `k` and `k'` left, inside blocks `rs`. -/
structure Coupling (ρ σ : Type) where
  left : Diagram ρ
  right : Diagram σ
  watch : Watch ρ
  image : ρ → σ
  valid : Nat → Nat → List ρ → ρ → Prop
  block (r : ρ) : right.block (image r) = (left.block r).map image
  positive {k k' : Nat} {rs : List ρ} {r : ρ} : valid k k' rs r → 0 < k ∧ 0 < k'
  succ {k k' : Nat} {rs : List ρ} {r : ρ} : valid k k' rs r → valid (k + 1) (k' + 1) rs r
  beside {k k' : Nat} {rs : List ρ} {r u : ρ} : valid k k' rs r → (left.block r).Links u →
    valid k k' rs u
  inside {k k' : Nat} {rs : List ρ} {r u : ρ} : valid (k + 1) (k' + 1) rs r →
    left.seen r rs = false → (left.block r).Links u → valid k k' (r :: rs) u
  allows {k k' : Nat} {rs : List ρ} {r : ρ} : valid k k' rs r → left.seen r rs = false →
    watch.allows (r :: rs) = true
  seen {k k' : Nat} {rs : List ρ} {r : ρ} : valid k k' rs r →
    right.seen (image r) (rs.map image) = left.seen r rs
  stack {k k' : Nat} {rs : List ρ} {r : ρ} : valid k k' rs r →
    right.stack (some (image r)) = (left.stack (some r)).map (List.map image)
  shallow {k k' : Nat} {rs : List ρ} {r : ρ} : valid k k' rs r →
    left.stack (some r) ≠ .error (.defect .tooDeep)

namespace Coupling

variable (K : Coupling ρ σ)

/-- Both compilations give the same events and the same faults, and the blocks that are being
compiled are `rs` on one side and their images on the other. -/
def matching (k k' : Nat) (rs : List ρ) : Matching ρ σ where
  refs r r' := r' = K.image r ∧ K.valid k k' rs r
  active us us' := us = rs ∧ us' = rs.map K.image
  fault f g := f = g ∧ f ≠ .defect .tooDeep
  event := Eq
  fault_refl h := ⟨rfl, h⟩
  fault_trans h h' := ⟨h.1.trans h'.1, h.2⟩

variable {K} {k k' : Nat} {rs : List ρ} {r : ρ} {b : Block ρ}

theorem rel_image {child : Option ρ} (h : ∀ u, child = some u → K.valid k k' rs u) :
    Option.Rel (K.matching k k' rs).refs child (child.map K.image) := by
  cases child with
  | none => exact .none
  | some u => exact .some ⟨rfl, h u rfl⟩

theorem blocks_map (h : ∀ u, b.Links u → K.valid k k' rs u) :
    (K.matching k k' rs).Blocks b (b.map K.image) where
  kind := rfl
  fault _ := ⟨rfl, nofun⟩
  format _ := ⟨rfl, nofun⟩
  event _ := rfl
  field? _ := rfl
  hasElse := by
    rw [StatementRule.hasElse, StatementRule.hasElse, Block.head?_map, Option.isSome_map]
    rfl
  value? socket := by
    rw [Block.value?_map]
    exact rel_image fun u hu => h u (.of_value? hu)
  head? socket := by
    rw [Block.head?_map]
    exact rel_image fun u hu => h u (.of_head? hu)
  next := rel_image fun u hu => h u (.next hu)

theorem counts_map : (K.matching k k' rs).Counts b (b.map K.image) where
  slots _ := by
    apply Matching.Answers.of_eq (b.slotCount_map K.image).symm
    intro f hf
    exact ⟨rfl, (ValueRule.invalidCount_of_slotCount hf).ne_tooDeep⟩
  branches _ := by
    apply Matching.Answers.of_eq (b.branchIndices_map K.image).symm
    intro f hf
    exact ⟨rfl, (StatementRule.invalidCount_of_branchIndices hf).ne_tooDeep⟩

theorem stack_image (h : K.valid k k' rs r) :
    (K.matching k k' rs).Answers (List.Forall₂ (K.matching k k' rs).refs) (K.left.stack (some r))
      (K.right.stack (some (K.image r))) := by
  rw [K.stack h]
  cases hs : K.left.stack (some r) with
  | error f => exact .error ⟨rfl, fun hf => K.shallow h (hf ▸ hs)⟩
  | ok us =>
    have hv := Diagram.forall_mem_stackFrom (fun hr hn => K.beside hr (.next hn))
      (fun u hu => Option.some.inj hu ▸ h) hs
    exact .ok (List.forall₂_map_right_iff.2 (List.forall₂_same.2 fun u hu => ⟨rfl, hv u hu⟩))

theorem reads : (K.matching k k' rs).Reads K.left K.right where
  block := by
    rintro r _ ⟨rfl, hr⟩
    rw [K.block]
    exact blocks_map fun u hu => K.beside hr hu
  stack := by
    rintro r _ ⟨rfl, hr⟩
    exact stack_image hr

theorem visiting {j j' : Nat} {R : α → β → Prop} {x : Compile ρ α} {y : Compile σ β}
    (hr : K.valid k k' rs r)
    (hx : K.left.seen r rs = false → (K.matching j j' (r :: rs)).Runs R x y) :
    (K.matching k k' rs).Runs R (K.watch.visiting K.left r x)
      (Compile.visiting K.right (K.image r) y) := by
  have hsite : K.right.site (K.image r) = K.left.site r := by
    rw [Diagram.site, Diagram.site, K.block]
    rfl
  have hguarded (hn : K.left.seen r rs = false) :
      (K.matching j j' (r :: rs)).Runs R (K.watch.guarded x) y := by
    intro c c' hc
    rw [Watch.guarded, hc.active.1, if_pos (K.allows hr hn)]
    exact hx hn c c' hc
  refine Matching.Runs.visiting (n := K.matching j j' (r :: rs)) ?_ ?_ ?_ ?_ ?_ rfl rfl
  · rintro _ _ ⟨rfl, rfl⟩
    exact (K.seen hr).symm
  · rintro _ _ ⟨rfl, rfl⟩
    exact ⟨rfl, rfl⟩
  · rintro _ _ ⟨rfl, rfl⟩
    exact ⟨rfl, rfl⟩
  · rw [hsite]
    exact ⟨rfl, nofun⟩
  · rintro _ _ ⟨rfl, rfl⟩
    exact hguarded

theorem expression_succ
    (ih : ∀ rs, (K.matching k k' rs).Generators (K.watch.ofDepth K.left k) (.ofDepth K.right k'))
    (hr : K.valid (k + 1) (k' + 1) rs r) :
    (K.matching (k + 1) (k' + 1) rs).Runs Eq ((K.watch.ofDepth K.left (k + 1)).expression r)
      ((Generator.ofDepth K.right (k' + 1)).expression (K.image r)) := by
  rw [Watch.expression_succ, Generator.expression_succ, K.block, Block.kind_map]
  cases hk : ValueRule.ofKind? (K.left.block r).kind with
  | none => exact .fail ⟨rfl, by rintro ⟨⟩⟩
  | some rule =>
    refine visiting hr fun hn => (ih (r :: rs)).inValue (blocks_map ?_) counts_map hk
    intro u hu
    exact K.inside hr hn hu

theorem statement_succ
    (ih : ∀ rs, (K.matching k k' rs).Generators (K.watch.ofDepth K.left k) (.ofDepth K.right k'))
    (hr : K.valid (k + 1) (k' + 1) rs r) :
    (K.matching (k + 1) (k' + 1) rs).Runs Eq ((K.watch.ofDepth K.left (k + 1)).statement r)
      ((Generator.ofDepth K.right (k' + 1)).statement (K.image r)) := by
  rw [Watch.statement_succ, Generator.statement_succ, K.block, Block.kind_map]
  cases hk : StatementRule.ofKind? (K.left.block r).kind with
  | none => exact .fail ⟨rfl, by rintro ⟨⟩⟩
  | some rule =>
    refine visiting hr fun hn => (ih (r :: rs)).inStatement (blocks_map ?_) counts_map hk
    intro u hu
    exact K.inside hr hn hu

variable (K) in
/-- Single blocks are compiled alike, whatever depths are left and whatever blocks are around. -/
theorem generators (k k' : Nat) (rs : List ρ) :
    (K.matching k k' rs).Generators (K.watch.ofDepth K.left k) (.ofDepth K.right k') := by
  have hd (j j' : Nat) (us : List ρ) : (K.matching j j' us).Reads
      (K.watch.ofDepth K.left j).diagram (Generator.ofDepth K.right j').diagram := by
    rw [Watch.diagram_ofDepth, Generator.diagram_ofDepth]
    exact reads
  induction k generalizing k' rs with
  | zero =>
    have hz {r r'} (h : (K.matching 0 k' rs).refs r r') : False := by
      have := (K.positive h.2).1
      omega
    exact ⟨hd _ _ _, fun h => (hz h).elim, fun h => (hz h).elim⟩
  | succ k ih =>
    cases k' with
    | zero =>
      have hz {r r'} (h : (K.matching (k + 1) 0 rs).refs r r') : False := by
        have := (K.positive h.2).2
        omega
      exact ⟨hd _ _ _, fun h => (hz h).elim, fun h => (hz h).elim⟩
    | succ k' =>
      refine ⟨hd _ _ _, ?_, ?_⟩
      · rintro r _ ⟨rfl, hr⟩
        exact expression_succ (ih k') hr
      · rintro r _ ⟨rfl, hr⟩
        exact statement_succ (ih k') hr

variable (K) in
theorem builders (k k' : Nat) (rs : List ρ) :
    (K.matching k k' rs).Builders K.watch (K.watch.ofDepth K.left k) (.ofDepth K.right k') where
  toGenerators := K.generators k k' rs
  transition := by
    rintro r _ ⟨rfl, hr⟩
    rw [Watch.diagram_ofDepth, Generator.diagram_ofDepth, K.block]
    refine visiting hr fun hn => (K.generators k k' (r :: rs)).localTransition (blocks_map ?_)
    intro u hu
    exact K.inside (K.succ hr) hn hu

/-- Runs of a diagram against itself that end alike are one, which leaves the blocks that it has
entered. -/
theorem eq_of_ends {K : Coupling ρ ρ} (hi : K.image = id)
    {u v : EStateM.Result Fault (Context ρ) α} (h : (K.matching k k' rs).Ends Eq u v) :
    u = v ∧ ∃ c : Context ρ, c.active = rs ∧
      ((∃ a, v = .ok a c) ∨ ∃ f, v = .error f c ∧ f ≠ .defect .tooDeep) := by
  have heq {c c' : Context ρ} (hc : (K.matching k k' rs).Contexts c c') :
      c = c' ∧ c'.active = rs := by
    obtain ⟨definitions, active, events⟩ := c
    obtain ⟨definitions', active', events'⟩ := c'
    obtain ⟨rfl, ⟨rfl, ha⟩, he⟩ := hc
    obtain rfl : active' = active := by
      rw [hi] at ha
      exact ha.trans (List.map_id active)
    obtain rfl : events = events' := List.forall₂_eq_eq_eq ▸ he
    exact ⟨rfl, rfl⟩
  cases h with
  | ok ha hc =>
    obtain ⟨rfl, hc⟩ := heq hc
    cases ha
    exact ⟨rfl, _, hc, .inl ⟨_, rfl⟩⟩
  | error hf hc =>
    obtain ⟨rfl, hc⟩ := heq hc
    obtain ⟨rfl, hf⟩ := hf
    exact ⟨rfl, _, hc, .inr ⟨_, rfl, hf⟩⟩

theorem eq_of_runs {K : Coupling ρ ρ} (hi : K.image = id) {x y : Compile ρ α}
    (h : ∀ rs, (K.matching k k' rs).Runs Eq x y) : x = y := by
  funext c
  have hm : c.active = c.active.map K.image := by
    rw [hi]
    exact (List.map_id c.active).symm
  exact (eq_of_ends hi (h c.active c c ⟨rfl, ⟨rfl, hm⟩, List.forall₂_eq_eq_eq ▸ rfl⟩)).1

end Coupling
end BlockMachine

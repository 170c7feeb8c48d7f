import BlockMachine.Compiler.Document
import BlockMachine.Proofs.Compiler.Vacancies
import BlockMachine.Proofs.Workspace.RoundTrip

namespace BlockMachine

namespace Tree

/-- A list has as many slots, and a branch as many conditions, without the empty sockets. -/
structure KeepsCounts (t : Tree) : Prop where
  slots : ValueRule.ofKind? t.block.kind = some .list →
    ValueRule.slotCount t.block = ValueRule.slotCount t.pruned.block
  branches : StatementRule.ofKind? t.block.kind = some .branches →
    StatementRule.branchIndices t.block = StatementRule.branchIndices t.pruned.block

/-- A tree with the same tree without its empty sockets, where no count depends on these. -/
def pruning : Matching Tree Tree where
  refs t u := t.All Placed ∧ t.All KeepsCounts ∧ u = t.pruned
  -- No two places of a tree are one block, so none is ever found among others.
  active _ _ := True
  fault := Eq
  event := Eq
  fault_refl _ := rfl
  fault_trans := Eq.trans

theorem rel_pruning {child : Option Tree}
    (h : ∀ u, child = some u → u.All Placed ∧ u.All KeepsCounts) :
    Option.Rel pruning.refs child (child.map pruned) := by
  cases child with
  | none => exact .none
  | some u => exact .some ⟨(h u rfl).1, (h u rfl).2, rfl⟩

theorem blocks_pruning {t : Tree} (hp : t.All Placed) (hc : t.Beneath KeepsCounts) :
    pruning.Blocks t.block t.pruned.block := by
  have hl := t.toLabel_pruned
  have hs : t.block.site = t.pruned.block.site := congrArg Label.site hl.symm
  refine ⟨(congrArg Label.kind hl).symm, fun f => congrArg (Fault.rule ∘ f) hs,
    fun f => congrArg (Fault.format ∘ f) hs, fun e => congrArg e hs,
    fun name => ?_, ?_, fun socket => ?_, fun socket => ?_, ?_⟩
  · rw [Block.field?, Block.field?, hl]
  · rw [StatementRule.hasElse, StatementRule.hasElse, Block.state?, Block.state?, hl,
      hp.self.head?_pruned, Option.isSome_map]
  · rw [hp.self.value?_pruned]
    exact rel_pruning fun u hu => ⟨hp.beneath.value? hu, hc.value? hu⟩
  · rw [hp.self.head?_pruned]
    exact rel_pruning fun u hu => ⟨hp.beneath.head? hu, hc.head? hu⟩
  · rw [next_pruned]
    exact rel_pruning fun u hu => ⟨hp.beneath.next u hu, hc.next u hu⟩

theorem diagrams_pruning (ts : List Tree) :
    pruning.Diagrams (diagram ts) (diagram (ts.map pruned)) := by
  refine ⟨trivial, fun _ _ => trivial, fun _ => trivial, rfl, ?_, ?_, ?_, ?_⟩
  · simp [diagram, List.foldr_map]
  · rintro t _ ⟨hp, hc, rfl⟩
    exact blocks_pruning hp hc.beneath
  · rintro t _ ⟨hp, hc, rfl⟩
    exact ⟨fun hk => .of_eq (hc.self.slots hk) fun _ _ => rfl,
      fun hk => .of_eq (hc.self.branches hk) fun _ _ => rfl⟩
  · intros
    rw [seen_diagram, seen_diagram]

variable {α β : Type} {R : α → β → Prop} {t : Tree}

theorem runs_visiting (t : Tree) (ts us : List Tree) {x : Compile Tree α} {y : Compile Tree β}
    (h : pruning.Runs R x y) :
    pruning.Runs R (Compile.visiting (diagram ts) t x)
      (Compile.visiting (diagram us) t.pruned y) := by
  refine .visiting (fun _ => ?_) (fun _ => trivial) (fun _ => trivial) ?_ (fun _ _ => h) rfl rfl
  · rw [seen_diagram, seen_diagram]
  · exact congrArg (fun l => Fault.rule (.cycle (Label.site l))) t.toLabel_pruned.symm

theorem count_pruned (t : Tree) (key : String) : t.pruned.block.count key = t.block.count key := by
  cases t
  rw [pruned]
  rfl

theorem kind_pruned (t : Tree) : t.pruned.block.kind = t.block.kind :=
  congrArg Label.kind t.toLabel_pruned

section Counted

variable {κ : Type} {counts counts' : Except Fault κ} {f f' : κ → Compile Tree α}
  {ts us : List Tree}

/-- A block whose text tells its count is compiled alike without its empty sockets exactly if these
are not counted. -/
theorem counted_iff (hf : ∀ a, pruning.Runs Eq (f a) (f' a))
    (hn : ∀ a a', counts = .ok a → counts' = .ok a' → a ≠ a' → pruning.Runs (· ≠ ·) (f a) (f' a'))
    {e : α}
    (he : (Compile.visiting (diagram us) t.pruned (Compile.lift counts' >>= f')).start.result =
      .ok e) :
    (Compile.visiting (diagram ts) t (Compile.lift counts >>= f)).start.result = .ok e ↔
      counts = counts' := by
  have herror (u : Tree) (vs : List Tree) (h : κ → Compile Tree α) (g : Fault) :
      (Compile.visiting (diagram vs) u (Compile.lift (.error g) >>= h)).start.result =
        .error g := by
    rw [Compile.start, Compile.visiting, seen_diagram]
    rfl
  cases counts' with
  | error g =>
    rw [herror] at he
    cases he
  | ok a' =>
    cases counts with
    | error g =>
      rw [herror]
      exact iff_of_false (fun h => by cases h) (fun h => by cases h)
    | ok a =>
      -- Different counts give different texts, and by `he` there is a text to compare with.
      refine ⟨fun hx => ?_, fun ha => ?_⟩
      · by_contra ha
        have hr := hn a a' rfl rfl fun h => ha (congrArg _ h)
        obtain ⟨e', hx', hne⟩ := ((runs_visiting t ts us hr).start trivial).result.of_ok he
        exact hne (Except.ok.inj (hx'.symm.trans hx))
      · cases ha
        obtain ⟨e', hx', rfl⟩ := ((runs_visiting t ts us (hf a')).start trivial).result.of_ok he
        exact hx'

end Counted

theorem lift_map_bind {κ : Type} (x : Except Fault κ) (f : κ → α) (g : α → Compile Tree β) :
    Compile.lift (x.map f) >>= g = Compile.lift x >>= fun a => g (f a) := by
  cases x <;> rfl

theorem expression_list (ts : List Tree) (depth : Nat)
    (h : ValueRule.ofKind? t.block.kind = some .list) :
    (Generator.ofDepth (diagram ts) (depth + 1)).expression t = Compile.visiting (diagram ts) t
      (Compile.lift (ValueRule.slotCount t.block) >>= fun count =>
        (Generator.ofDepth (diagram ts) depth).fill t.block (ValueRule.listTemplate count)) := by
  have hk : ValueRule.ofKind? ((diagram ts).block t).kind = some .list := h
  rw [Generator.expression_succ, hk, ← lift_map_bind]
  rfl

theorem statement_branches (ts : List Tree) (depth : Nat)
    (h : StatementRule.ofKind? t.block.kind = some .branches) :
    (Generator.ofDepth (diagram ts) (depth + 1)).statement t = Compile.visiting (diagram ts) t
      (Compile.lift (StatementRule.branchIndices t.block) >>=
        StatementRule.branchesOf (.ofDepth (diagram ts) depth) t.block) := by
  have hk : StatementRule.ofKind? ((diagram ts).block t).kind = some .branches := h
  rw [Generator.statement_succ, hk]
  rfl

theorem value?_eq_none_of_pruned (hp : t.Placed) {socket : String}
    (h : ¬ ∃ u, t.pruned.block.value? socket = some u) : t.block.value? socket = none := by
  cases hv : t.block.value? socket with
  | none => rfl
  | some u =>
    rw [hp.value?_pruned, hv] at h
    exact absurd ⟨_, rfl⟩ h

theorem head?_eq_none_of_pruned (hp : t.Placed) {socket : String}
    (h : ¬ ∃ u, t.pruned.block.head? socket = some u) : t.block.head? socket = none := by
  cases hv : t.block.head? socket with
  | none => rfl
  | some u =>
    rw [hp.head?_pruned, hv] at h
    exact absurd ⟨_, rfl⟩ h

section Exact

variable {ts : List Tree} (hp : t.All Placed) (hc : t.Beneath KeepsCounts)
include hp hc

theorem list_same_iff {e : Expression} (hk : ValueRule.ofKind? t.block.kind = some .list)
    (he : ((diagram (ts.map pruned)).generator.expression t.pruned).start.result = .ok e) :
    ((diagram ts).generator.expression t).start.result = .ok e ↔
      ValueRule.slotCount t.block = ValueRule.slotCount t.pruned.block := by
  have hd := diagrams_pruning ts
  have hg := hd.ofDepth (diagram ts).bound
  have hb := blocks_pruning hp hc
  have hk' : ValueRule.ofKind? t.pruned.block.kind = some .list := t.kind_pruned ▸ hk
  rw [Diagram.generator, ← hd.bound, expression_list _ _ hk'] at he
  rw [Diagram.generator, expression_list _ _ hk]
  refine counted_iff (fun k => hg.fill hb (.same (ValueRule.isFaultless_listTemplate k)))
    (fun n k hn hk hne => ?_) he
  have hle : k ≤ n :=
    ValueRule.slotCount_le t.keys_values_pruned.subset (t.count_pruned _) hn hk
  obtain ⟨j, rfl⟩ := Nat.exists_eq_add_of_le hle
  refine (hg.list hb (fun i hi => value?_eq_none_of_pruned hp.self ?_) j).mono ?_
  · rintro ⟨u, hu⟩
    exact absurd (ValueRule.lt_slotCount hk hu) (Nat.not_lt.2 hi)
  · intro e e' hx he
    exact hx.ne (by omega) (congrArg Expression.text he)

/-- Branches are compiled to the same text without their empty sockets exactly if they keep their
numbers. -/
theorem branches_same_iff {s : String} (hk : StatementRule.ofKind? t.block.kind = some .branches)
    (he : ((diagram (ts.map pruned)).generator.statement t.pruned).start.result = .ok s) :
    ((diagram ts).generator.statement t).start.result = .ok s ↔
      StatementRule.branchIndices t.block = StatementRule.branchIndices t.pruned.block := by
  have hd := diagrams_pruning ts
  have hg := hd.ofDepth (diagram ts).bound
  have hb := blocks_pruning hp hc
  have hk' : StatementRule.ofKind? t.pruned.block.kind = some .branches := t.kind_pruned ▸ hk
  rw [Diagram.generator, ← hd.bound, statement_branches _ _ hk'] at he
  rw [Diagram.generator, statement_branches _ _ hk]
  refine counted_iff (hg.branchesOf hb) (fun is js hi hj hne => ?_) he
  have hsub : js ⊆ is := StatementRule.branchIndices_subset
    (t.keys_values_pruned.append t.keys_statements_pruned).subset (t.count_pruned _) hi hj
  have hlt := Matching.length_lt_of_ne hi hj hsub hne
  refine (hg.moreBranches hb hi hj hsub (fun i hn => value?_eq_none_of_pruned hp.self ?_)
    (fun i hn => head?_eq_none_of_pruned hp.self ?_)).mono fun s s' hx => hx.ne (by omega)
  · rintro ⟨u, hu⟩
    exact hn (StatementRule.mem_branchIndices_of_value? hj hu)
  · rintro ⟨u, hu⟩
    exact hn (StatementRule.mem_branchIndices_of_head? hj hu)

end Exact

end Tree

namespace Workspace

/-- No count of the workspace depends on empty sockets. -/
def KeepsCounts (w : Workspace) : Prop := ∀ t ∈ w.blocks, t.All Tree.KeepsCounts

theorem compile_pruned {w : Workspace} (hp : w.IsPlaced) (hc : w.KeepsCounts) :
    w.pruned.compile = w.compile := by
  have ht : List.Forall₂ Tree.pruning.refs w.blocks (w.blocks.map Tree.pruned) :=
    List.forall₂_map_right_iff.2 (List.forall₂_same.2 fun t ht => ⟨(hp t ht).1, hc t ht, rfl⟩)
  exact (((Tree.diagrams_pruning w.blocks).compileAll ht).eq id id).symm

/-- What was saved compiles as before if no count depends on empty sockets. A list or a branch whose
own count does, and none below it, gives another text, if it can be compiled at all. -/
theorem recompile_saved {document : Json} {w : Workspace} (hd : document.Distinct)
    (h : read document = .ok w) :
    (w.KeepsCounts → compileDocument w.save = compileDocument document) ∧
    ∀ s ∈ w.blocks, ∀ t : Tree, t.Within s → t.Beneath Tree.KeepsCounts →
      (ValueRule.ofKind? t.block.kind = some .list → ∀ e,
        (w.pruned.diagram.generator.expression t.pruned).start.result = .ok e →
        ((w.diagram.generator.expression t).start.result = .ok e ↔
          ValueRule.slotCount t.block = ValueRule.slotCount t.pruned.block)) ∧
      (StatementRule.ofKind? t.block.kind = some .branches → ∀ code,
        (w.pruned.diagram.generator.statement t.pruned).start.result = .ok code →
        ((w.diagram.generator.statement t).start.result = .ok code ↔
          StatementRule.branchIndices t.block = StatementRule.branchIndices t.pruned.block)) := by
  have hp := isPlaced_of_read hd h
  refine ⟨fun hk => ?_, fun s hs t ht hc => ?_⟩
  · rw [compileDocument, compileDocument, h, read_save hp]
    exact compile_pruned hp hk
  · have hp := (hp s hs).1.of_within ht
    exact ⟨fun hk _ he => Tree.list_same_iff hp hc hk he,
      fun hk _ he => Tree.branches_same_iff hp hc hk he⟩

def ofConstant (value : Tree) : Workspace :=
  ⟨[.node { kind := "ai_definition", fields := [("INITIAL_STATE", .text "idle")] } [] [] none,
    .node { kind := "custom_constant_define", fields := [("NAME", .text "k")] }
      [("VALUE", some value)] [] none]⟩

def constantDocument (value : Json) : Json :=
  .obj [("blocks", .obj [("blocks", .arr [
    .obj [("type", .str "ai_definition"), ("fields", .obj [("INITIAL_STATE", .str "idle")])],
    .obj [("type", .str "custom_constant_define"), ("fields", .obj [("NAME", .str "k")]),
      ("inputs", .obj [("VALUE", .obj [("block", value)])])]])])]

/-- Three slots by its extra state, the last one an empty socket. -/
def countedList : Tree :=
  .node { kind := "lists_create_with", extraState := some [("itemCount", .int 3)] }
    [("ADD0", some (.node { kind := "logic_null" } [] [] none)), ("ADD2", none)] [] none

def countedListDocument : Json :=
  constantDocument (.obj [("type", .str "lists_create_with"),
    ("extraState", .obj [("itemCount", .int 3)]),
    ("inputs", .obj [("ADD0", .obj [("block", .obj [("type", .str "logic_null")])]),
      ("ADD2", .obj [])])])

theorem recompile_countedList :
    countedListDocument.Distinct ∧ read countedListDocument = .ok (ofConstant countedList) ∧
      (ofConstant countedList).KeepsCounts ∧
      compileDocument (ofConstant countedList).save = compileDocument countedListDocument ∧
      ((ofConstant countedList).diagram.generator.expression countedList).start.result =
        .ok ⟨"[null, null, null]", .atomic⟩ := by
  have hd : countedListDocument.Distinct := by
    simp [countedListDocument, constantDocument, Table.keys]
  have hr : read countedListDocument = .ok (ofConstant countedList) := by with_unfolding_all rfl
  have hnull : Tree.All Tree.KeepsCounts (.node { kind := "logic_null" } [] [] none) :=
    .of_values ⟨fun h => (by cases h), fun h => (by cases h)⟩ (fun _ _ hm => by cases hm)
  have hlist : countedList.All Tree.KeepsCounts := by
    refine .of_values ⟨fun _ => rfl, fun h => by cases h⟩ (fun socket t hm => ?_)
    rcases List.mem_cons.1 hm with he | hm
    · cases he
      exact hnull
    · simp at hm
  have hk : (ofConstant countedList).KeepsCounts := by
    refine List.forall_mem_cons.2
      ⟨.of_values ⟨fun h => (by cases h), fun h => (by cases h)⟩ (fun _ _ hm => by cases hm),
        List.forall_mem_singleton.2
          (.of_values ⟨fun h => (by cases h), fun h => (by cases h)⟩ (fun socket t hm => ?_))⟩
    cases List.mem_singleton.1 hm
    exact hlist
  obtain ⟨hsame, hexact⟩ := recompile_saved hd hr
  have hl := hexact _ (List.mem_cons_of_mem _ List.mem_cons_self) countedList
    (.value List.mem_cons_self .self) hlist.beneath
  exact ⟨hd, hr, hk, hsame hk, (hl.1 rfl _ rfl).2 (hlist.self.slots rfl)⟩

/-- An empty socket alone asks for three slots, and is not saved. -/
theorem uncountedList_recompiles_shorter :
    let document := constantDocument
      (.obj [("type", .str "lists_create_with"), ("inputs", .obj [("ADD2", .obj [])])])
    let w := ofConstant (.node { kind := "lists_create_with" } [("ADD2", none)] [] none)
    read document = .ok w ∧
      (compileDocument document).result.map (·.definitions) =
        .ok [("k", "const k = [null, null, null];")] ∧
      (compileDocument w.save).result.map (·.definitions) = .ok [("k", "const k = [];")] := by
  intro document w
  subst document w
  exact ⟨by with_unfolding_all rfl, eq_ok_of_toOption (by decide +kernel),
    eq_ok_of_toOption (by decide +kernel)⟩

end Workspace
end BlockMachine

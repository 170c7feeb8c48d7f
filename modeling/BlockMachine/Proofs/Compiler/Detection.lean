import BlockMachine.Proofs.Compiler.Demands
import BlockMachine.Proofs.Compiler.Steps
import BlockMachine.Proofs.Compiler.Traversal

namespace BlockMachine

namespace Compile

variable {ρ α β : Type}

/-- Success if nothing is wrong, and otherwise failure with something that is. -/
inductive Verdict (D : Definitions → Prop) (wrong : Fault → Prop) :
    EStateM.Result Fault (Context ρ) α → Prop
  | ok {a : α} {c : Context ρ} : D c.definitions → (∀ f, ¬ wrong f) → Verdict D wrong (.ok a c)
  | error {f : Fault} {c : Context ρ} : wrong f → Verdict D wrong (.error f c)

/-- A step that comes before the table of definitions is handed out. -/
def Detects (x : Compile ρ α) (wrong : Fault → Prop) : Prop :=
  ∀ c, c.definitions.drained = false → Verdict (·.drained = false) wrong (x c)

def Concludes (x : Compile ρ α) (wrong : Fault → Prop) : Prop :=
  ∀ c, c.definitions.drained = false → Verdict (fun _ => True) wrong (x c)

variable {wrong more : Fault → Prop}

theorem Verdict.bind {D E : Definitions → Prop} {x : Compile ρ α} {k : α → Compile ρ β}
    {c : Context ρ} (hx : Verdict D wrong (x c))
    (hk : ∀ a c, D c.definitions → Verdict E more (k a c)) :
    Verdict E (fun f => wrong f ∨ more f) ((x >>= k) c) := by
  change Verdict E _ (EStateM.bind x k c)
  rw [EStateM.bind]
  generalize x c = u at hx ⊢
  cases hx with
  | error hf => exact .error (.inl hf)
  | @ok a c hd hn =>
    have hv := hk a c hd
    dsimp only
    generalize k a c = v at hv ⊢
    cases hv with
    | error hf => exact .error (.inr hf)
    | ok hd hm => exact .ok hd fun f => not_or_intro (hn f) (hm f)

theorem Verdict.congr {D : Definitions → Prop} {u : EStateM.Result Fault (Context ρ) α}
    (h : Verdict D wrong u) (hw : ∀ f, wrong f ↔ more f) : Verdict D more u := by
  cases h with
  | error hf => exact .error ((hw _).1 hf)
  | ok hd hn => exact .ok hd fun f hf => hn f ((hw f).2 hf)

namespace Detects

theorem pure (a : α) : (Pure.pure a : Compile ρ α).Detects fun _ => False := by
  intro c hc
  exact .ok hc fun _ => id

theorem fail {f : Fault} (h : wrong f) : (Compile.fail f : Compile ρ α).Detects wrong := by
  intro c _
  exact .error h

theorem bind {x : Compile ρ α} {k : α → Compile ρ β} (hx : x.Detects wrong)
    (hk : ∀ a, (k a).Detects more) : (x >>= k).Detects fun f => wrong f ∨ more f := by
  intro c hc
  exact (hx c hc).bind fun a c hc => hk a c hc

theorem congr {x : Compile ρ α} (h : x.Detects wrong) (hw : ∀ f, wrong f ↔ more f) :
    x.Detects more := by
  intro c hc
  exact (h c hc).congr hw

theorem followed {x : Compile ρ α} {k : α → Compile ρ β} (hx : x.Detects wrong)
    (hk : ∀ a, (k a).Detects fun _ => False) : (x >>= k).Detects wrong := by
  apply (hx.bind hk).congr
  intro f
  simp

theorem map {x : Compile ρ α} (hx : x.Detects wrong) (g : α → β) :
    (x >>= fun a => Pure.pure (g a)).Detects wrong :=
  hx.followed fun _ => .pure _

theorem after {x : Compile ρ α} {k : α → Compile ρ β} (hx : x.Detects fun _ => False)
    (hk : ∀ a, (k a).Detects wrong) : (x >>= k).Detects wrong := by
  apply (hx.bind hk).congr
  intro f
  simp

theorem lift {x : Except Fault α} (he : ∀ f, x = .error f → wrong f)
    (ho : ∀ a, x = .ok a → ∀ f, ¬ wrong f) : (Compile.lift x : Compile ρ α).Detects wrong := by
  intro c hc
  cases x with
  | ok a => exact .ok hc (ho a rfl)
  | error f => exact .error (he f rfl)

theorem fieldText (b : Block ρ) (name : String) :
    (Compile.lift (b.fieldText name) : Compile ρ String).Detects fun f =>
      b.field? name = none ∧ f = b.missing name := by
  apply Detects.lift
  · intro f hf
    exact Block.fieldText_missing hf
  · rintro text ht f ⟨hn, -⟩
    exact Block.fieldText_ok ht hn

theorem log (e : Event) : (Compile.log e : Compile ρ Unit).Detects fun _ => False := by
  intro c hc
  exact .ok hc fun _ => id

theorem register (name text : String) :
    (Compile.register name text : Compile ρ Unit).Detects fun _ => False := by
  intro c hc
  exact .ok hc fun _ => id

theorem reserve (name text : String) :
    (Compile.reserve name text : Compile ρ Unit).Detects fun _ => False := by
  intro c hc
  exact .ok hc fun _ => id

theorem mapM {xs : List α} {k : α → Compile ρ β} {wrong : α → Fault → Prop}
    (h : ∀ a ∈ xs, (k a).Detects (wrong a)) :
    (xs.mapM k).Detects fun f => ∃ a ∈ xs, wrong a f := by
  induction xs with
  | nil =>
    apply (Detects.pure []).congr
    intro f
    simp
  | cons a xs ih =>
    obtain ⟨ha, hxs⟩ := List.forall_mem_cons.1 h
    rw [List.mapM_cons]
    apply (ha.bind fun b => (ih hxs).map (b :: ·)).congr
    intro f
    simp

theorem forM {xs : List α} {k : α → Compile ρ Unit} {wrong : α → Fault → Prop}
    (h : ∀ a ∈ xs, (k a).Detects (wrong a)) :
    (xs.forM k).Detects fun f => ∃ a ∈ xs, wrong a f := by
  induction xs with
  | nil =>
    apply (Detects.pure ()).congr
    intro f
    simp
  | cons a xs ih =>
    obtain ⟨ha, hxs⟩ := List.forall_mem_cons.1 h
    apply (ha.bind fun _ => ih hxs).congr
    intro f
    simp

theorem visiting {ts : List Tree} {t : Tree} {x : Compile Tree α} (hx : x.Detects wrong) :
    (Compile.visiting (Tree.diagram ts) t x).Detects wrong := by
  intro c hc
  rw [Compile.visiting, Tree.seen_diagram]
  have hv := hx { c with active := t :: c.active } hc
  generalize x _ = u at hv ⊢
  cases hv with
  | ok hd hn => exact .ok hd hn
  | error hf => exact .error hf

theorem concludes {x : Compile ρ α} {k : α → Compile ρ β} (hx : x.Detects wrong)
    (hk : ∀ a, (k a).Concludes more) : (x >>= k).Concludes fun f => wrong f ∨ more f := by
  intro c hc
  exact (hx c hc).bind fun a c hc => hk a c hc

end Detects

namespace Concludes

theorem congr {x : Compile ρ α} (h : x.Concludes wrong) (hw : ∀ f, wrong f ↔ more f) :
    x.Concludes more := by
  intro c hc
  exact (h c hc).congr hw

/-- The table was not handed out before, so that handing it out succeeds. -/
theorem drain {k : Table String → Compile ρ β}
    (hk : ∀ entries c, Verdict (fun _ => True) wrong (k entries c)) :
    (Compile.drain >>= k).Concludes wrong := by
  intro c hc
  change Verdict _ wrong (EStateM.bind Compile.drain k c)
  rw [EStateM.bind, drain_of_fresh hc]
  exact hk _ _

theorem start {x : Compile ρ α} (h : x.Concludes wrong) :
    ((∃ a, x.start.result = .ok a) ↔ ∀ f, ¬ wrong f) ∧
      ∀ f, x.start.result = .error f → wrong f := by
  have hv := h {} rfl
  rw [Compile.start]
  generalize x {} = u at hv ⊢
  cases hv with
  | @ok a c _ hn =>
    refine ⟨⟨fun _ => hn, fun _ => ⟨a, rfl⟩⟩, ?_⟩
    rintro _ ⟨⟩
  | @error f c hf =>
    refine ⟨⟨?_, fun hn => (hn f hf).elim⟩, ?_⟩
    · rintro ⟨_, ⟨⟩⟩
    · rintro _ ⟨⟩
      exact hf

end Concludes

end Compile

open Position (ValueFails StackFails)

/-- A tree that can be compiled with so many levels of nesting left. -/
structure Room (ts : List Tree) (n : Nat) (t : Tree) : Prop where
  depth : t.size ≤ n
  bound : t.size ≤ (Tree.diagram ts).bound

/-- A way of compiling single blocks of trees that finds their faults. -/
structure Detector (ts : List Tree) (n : Nat) (g : Generator Tree) : Prop where
  diagram : g.diagram = Tree.diagram ts
  expression {t : Tree} : Room ts n t → (g.expression t).Detects (Position.mk .value t).Fails
  statement {t : Tree} : Room ts n t → (g.statement t).Detects (Position.mk .statement t).Fails

namespace Room

variable {ts : List Tree} {n : Nat} {t u : Tree}

theorem held (h : Room ts (n + 1) t) : Contract.Held (Room ts n) t.block := by
  obtain ⟨hd, hb⟩ := h
  constructor
  · intro socket u hu
    have hs := Tree.size_lt_of_mem_values (Table.mem_of_join_get? hu)
    exact ⟨by omega, by omega⟩
  · intro socket u hu
    have hs := Tree.size_lt_of_mem_statements (Table.mem_of_join_get? hu)
    exact ⟨by omega, by omega⟩

theorem stackedOption {top : Option Tree} (h : ∀ t, top = some t → Room ts n t) :
    ∀ u ∈ Tree.stackedOption top, Room ts n u := by
  intro u hu
  cases top with
  | none =>
    rw [Tree.stackedOption] at hu
    cases hu
  | some t =>
    rw [Tree.stackedOption] at hu
    have hs := Tree.size_le_of_within (Tree.within_of_mem_stacked hu)
    obtain ⟨hd, hb⟩ := h t rfl
    exact ⟨by omega, by omega⟩

end Room

namespace Detector

variable {ts : List Tree} {n : Nat} {g : Generator Tree} {t : Tree}

theorem block (h : Detector ts n g) (t : Tree) : g.diagram.block t = t.block := by
  rw [h.diagram]
  rfl

theorem stack (h : Detector ts n g) {top : Option Tree} (ht : ∀ t, top = some t → Room ts n t) :
    g.diagram.stack top = .ok (Tree.stackedOption top) := by
  rw [h.diagram]
  exact Tree.stack_eq fun t he => (ht t he).bound

theorem value (h : Detector ts n g) {child : Option Tree} (hc : ∀ u, child = some u → Room ts n u)
    (context : Order) (default : String) :
    (g.value child context default).Detects fun f =>
      ∃ u, child = some u ∧ (Position.mk .value u).Fails f := by
  cases child with
  | none =>
    apply (Compile.Detects.pure _).congr
    intro f
    simp
  | some u =>
    apply ((h.expression (hc u rfl)).map _).congr
    intro f
    simp

theorem expand (h : Detector ts n g) (hb : Contract.Held (Room ts n) t.block) (parts : List Part) :
    (g.expand t.block parts).Detects fun f =>
      .fail f ∈ parts ∨ ∃ socket ∈ slots parts, ValueFails t .value socket f := by
  induction parts with
  | nil =>
    apply (Compile.Detects.pure _).congr
    intro f
    simp [slots]
  | cons part parts ih =>
    cases part with
    | text s =>
      apply (ih.map _).congr
      intro f
      simp [slots, Part.socket?]
    | slot socket context default =>
      have hv :=
        h.value (fun u (hu : t.block.value? socket = some u) => hb.value? hu) context default
      apply (hv.bind fun e => ih.map _).congr
      intro f
      simp [slots, Part.socket?, ValueFails, or_left_comm]
    | fail e =>
      -- What stands behind the failing part is not looked at, so it may be called wrong as well.
      exact .fail (.inl List.mem_cons_self)

theorem fill (h : Detector ts n g) (hb : Contract.Held (Room ts n) t.block) (template : Template) :
    (g.fill t.block template).Detects fun f =>
      .fail f ∈ template.parts ∨ ∃ socket ∈ slots template.parts, ValueFails t .value socket f := by
  have he := (h.expand hb template.parts).map fun s => (⟨s, template.order⟩ : Expression)
  rw [Generator.fill]
  cases template.reserves with
  | none => exact he
  | some entry => exact (Compile.Detects.reserve _ _).after fun _ => he

theorem fragments (h : Detector ts n g) {top : Option Tree}
    (ht : ∀ t, top = some t → Room ts n t) :
    (g.fragments top).Detects fun f =>
      ∃ u ∈ Tree.stackedOption top, (Position.mk .statement u).Fails f := by
  rw [Generator.fragments, h.stack ht]
  exact .mapM fun u hu => h.statement (Room.stackedOption ht u hu)

theorem sequence (h : Detector ts n g) {top : Option Tree}
    (ht : ∀ t, top = some t → Room ts n t) :
    (g.sequence top).Detects fun f =>
      ∃ u ∈ Tree.stackedOption top, (Position.mk .statement u).Fails f :=
  (h.fragments ht).map _

theorem steps (h : Detector ts n g) (site : Site) {us : List Tree} (hu : ∀ u ∈ us, Room ts n u) :
    (StatementRule.steps g site us).Detects fun f =>
      ∃ u ∈ Tree.upToReturn us, (Position.mk .statement u).Fails f := by
  induction us with
  | nil =>
    apply (Compile.Detects.pure _).congr
    intro f
    simp [Tree.upToReturn]
  | cons u us ih =>
    obtain ⟨hu, hus⟩ := List.forall_mem_cons.1 hu
    rw [StatementRule.steps, Tree.upToReturn, h.block]
    by_cases hk : u.block.kind = Catalog.returnStateKind
    · simp only [if_pos hk]
      have hl (fragment : String) : (do
          if !us.isEmpty then Compile.log (.skippedAfterReturn us.length site)
          return ([], fragment) : Compile Tree (List String × String)).Detects fun _ => False := by
        split
        · exact (Compile.Detects.log _).after fun _ => .pure _
        · exact .pure _
      apply ((h.statement hu).followed hl).congr
      intro f
      simp
    · simp only [if_neg hk]
      apply ((h.statement hu).bind fun s => (ih hus).map _).congr
      intro f
      simp

theorem branch (h : Detector ts n g) (hb : Contract.Held (Room ts n) t.block) (i : Nat) :
    (StatementRule.branch g t.block i).Detects fun f =>
      (∃ u, t.block.value? ("IF" ++ decimalText i) = some u ∧ (Position.mk .value u).Fails f) ∨
      ∃ u ∈ Tree.stackedOption (t.block.head? ("DO" ++ decimalText i)),
        (Position.mk .statement u).Fails f := by
  apply (h.value (fun u hu => hb.value? hu) _ _).bind
  intro condition
  exact (h.sequence fun u hu => hb.head? hu).map _

theorem localTransition (h : Detector ts n g) (hb : Contract.Held (Room ts n) t.block)
    (hk : t.block.kind = Catalog.localTransitionKind) :
    (g.localTransition t.block).Detects fun f =>
      (t.block.field? "TARGET" = none ∧ f = t.block.missing "TARGET") ∨
      ValueFails t .value "CONDITION" f := by
  rw [Generator.localTransition, if_neg (not_not.2 hk)]
  apply (Compile.Detects.fieldText t.block "TARGET").bind
  intro target
  exact (h.value (fun u hu => hb.value? hu) _ _).map _

end Detector

namespace StatementRule

variable {t : Tree} {f : Fault}

theorem head?_eq_none_of_not_hasElse (h : ¬ hasElse t.block = true) :
    t.block.head? "ELSE" = none := by
  cases hh : t.block.head? "ELSE" with
  | none => rfl
  | some u =>
    rw [hasElse, hh, Option.isSome_some, Bool.or_true] at h
    exact absurd rfl h

theorem fails_of_branches {is : List Nat} (hk : t.block.kind = "controls_if")
    (hi : branchIndices t.block = .ok is) :
    (Position.mk .statement t).Fails f ↔
      (∃ i ∈ is, ValueFails t .value ("IF" ++ decimalText (i : Nat)) f ∨
        StackFails t .statement ("DO" ++ decimalText (i : Nat)) f) ∨
      StackFails t .statement "ELSE" f := by
  have hm : t.block.kind ∈ Place.statement.kinds := by
    rw [hk]
    decide
  have hb : ¬ t.block.Breaks f := by
    rw [breaks_of_branches hk]
    exact not_invalidCount hi
  have hl : t.block.kind ≠ "lists_create_with" := by
    rw [hk]
    decide
  rw [Position.fails_of_placed hm, Block.readValues, if_neg hl, if_pos hk, Block.readStacks,
    if_pos hk, hi]
  simp only [hb, false_or, Place.inner, List.mem_map, List.mem_append, List.mem_singleton,
    exists_exists_and_eq_and, or_and_right, exists_or, exists_eq_left, and_or_left]
  exact or_assoc.symm

end StatementRule

theorem Tree.readStack_of_ne {t : Tree} (h : t.block.kind ≠ "action_sequence") (socket : String) :
    t.readStack socket = stackedOption (t.block.head? socket) := by
  rw [readStack, if_neg h]

namespace Detector

variable {ts : List Tree} {n : Nat} {g : Generator Tree} {t : Tree}

theorem actionSequence (h : Detector ts n g) (hb : Contract.Held (Room ts n) t.block)
    (hk : t.block.kind = "action_sequence") :
    (StatementRule.actionSequence.run g t.block).Detects (StackFails t .statement "DO") := by
  have ht : ∀ u, t.block.head? "DO" = some u → Room ts n u := fun u hu => hb.head? hu
  rw [StatementRule.actionSequence.run, h.stack ht]
  have hx := h.steps t.block.site (Room.stackedOption ht)
  have hr : t.readStack "DO" = Tree.upToReturn (Tree.stackedOption (t.block.head? "DO")) := by
    rw [Tree.readStack, if_pos hk]
  rw [← hr] at hx
  exact hx.map _

theorem scope (h : Detector ts n g) (hb : Contract.Held (Room ts n) t.block)
    (hk : t.block.kind ≠ "action_sequence") :
    (StatementRule.scope.run g t.block).Detects fun f =>
      StackFails t .statement "VARIABLES" f ∨ StackFails t .statement "BODY" f := by
  have hx (socket : String) := h.sequence fun u (hu : t.block.head? socket = some u) => hb.head? hu
  simp only [← Tree.readStack_of_ne hk] at hx
  exact (hx "VARIABLES").bind fun _ => (hx "BODY").map _

theorem otherwise (h : Detector ts n g) (hb : Contract.Held (Room ts n) t.block)
    (hk : t.block.kind ≠ "action_sequence") (code : String) :
    (do
      if StatementRule.hasElse t.block then
        let body ← g.sequence (t.block.head? "ELSE")
        return code ++ " else \x7b\n" ++ indented body ++ "\x7d\n"
      else return code ++ "\n" : Compile Tree String).Detects (StackFails t .statement "ELSE") := by
  have he := h.sequence fun u (hu : t.block.head? "ELSE" = some u) => hb.head? hu
  split
  · rw [← Tree.readStack_of_ne hk] at he
    exact he.map _
  · rename_i hn
    apply (Compile.Detects.pure _).congr
    intro f
    rw [StackFails, Tree.readStack_of_ne hk, StatementRule.head?_eq_none_of_not_hasElse hn,
      Tree.stackedOption]
    simp

theorem branches (h : Detector ts n g) (hb : Contract.Held (Room ts n) t.block)
    (hk : t.block.kind = "controls_if") :
    (StatementRule.branches.run g t.block).Detects (Position.mk .statement t).Fails := by
  have hs : t.block.kind ≠ "action_sequence" := by
    rw [hk]
    decide
  rw [StatementRule.branches.run]
  cases hi : StatementRule.branchIndices t.block with
  | error e =>
    have he : t.block.Breaks e :=
      (StatementRule.breaks_of_branches hk).2 (StatementRule.invalidCount_of_branchIndices hi)
    have hm : t.block.kind ∈ Place.statement.kinds := by
      rw [hk]
      decide
    exact .fail ((Position.fails_of_placed hm).2 (.inl he))
  | ok is =>
    have hx := Compile.Detects.mapM fun i (_ : i ∈ is) => h.branch hb i
    apply (hx.bind fun cases => h.otherwise hb hs _).congr
    intro f
    rw [StatementRule.fails_of_branches hk hi]
    simp only [ValueFails, StackFails, Tree.readStack_of_ne hs]

theorem run (h : Detector ts n g) (hb : Contract.Held (Room ts n) t.block) {rule : StatementRule}
    (hk : StatementRule.ofKind? t.block.kind = some rule) :
    (rule.run g t.block).Detects (Position.mk .statement t).Fails := by
  have hs := StatementRule.suits_ofKind? hk
  have hm := StatementRule.kind_mem hk
  have hf := Compile.Detects.fieldText t.block
  have hv (socket : String) (context : Order) (default : String) :=
    h.value (fun u (hu : t.block.value? socket = some u) => hb.value? hu) context default
  cases rule with
  | inline parts =>
    apply (h.expand hb parts).congr
    intro f
    rw [(hs.plain (Option.some_ne_none _).symm).fails_iff hm]
    simp [Place.inner, fail_not_mem hs.faultless]
  | actionSequence =>
    apply (h.actionSequence hb (hs.sole _ rfl)).congr
    intro f
    rw [(hs.plain (by decide)).fails_iff hm]
    simp
  | branches => exact h.branches hb (hs.sole _ rfl)
  | scope =>
    have hn : t.block.kind ≠ "action_sequence" := by
      rw [hs.sole _ rfl]
      decide
    apply (h.scope hb hn).congr
    intro f
    rw [(hs.plain (by decide)).fails_iff hm]
    simp
  | setMemory =>
    apply ((hf "KEY").bind fun key => (hv "VALUE" _ _).map _).congr
    intro f
    rw [(hs.plain (by decide)).fails_iff hm]
    simp [ValueFails, Place.inner]
  | declareVariable =>
    apply ((hf "VAR_NAME").bind fun name => (hv "INITIAL_VALUE" _ _).map _).congr
    intro f
    rw [(hs.plain (by decide)).fails_iff hm]
    simp [ValueFails, Place.inner]
  | setVariable =>
    apply ((hf "VAR_NAME").bind fun name => (hv "VALUE" _ _).map _).congr
    intro f
    rw [(hs.plain (by decide)).fails_iff hm]
    simp [ValueFails, Place.inner]
  | returnState =>
    apply ((hf "STATE_NAME").map _).congr
    intro f
    rw [(hs.plain (by decide)).fails_iff hm]
    simp
  | defineConstant =>
    have hr (name text : String) :=
      (Compile.Detects.register (ρ := Tree) name text).map fun _ => ""
    apply ((hf "NAME").bind fun name => (hv "VALUE" _ _).followed fun value => hr name _).congr
    intro f
    rw [(hs.plain (by decide)).fails_iff hm]
    simp [ValueFails, Place.inner]
  | defineFunction =>
    have hr (name text : String) :=
      (Compile.Detects.register (ρ := Tree) name text).map fun _ => ""
    apply ((hf "NAME").followed fun name => hr name _).congr
    intro f
    rw [(hs.plain (by decide)).fails_iff hm]
    simp
  | transition =>
    apply ((h.localTransition hb (hs.sole _ rfl)).map _).congr
    intro f
    rw [(hs.plain (by decide)).fails_iff hm]
    simp [Place.inner]

end Detector

end BlockMachine

import BlockMachine.Proofs.Compiler.Recording

namespace BlockMachine

/-- The warning that a state comes in place of another one. -/
def Event.isDuplicate : Event → Bool
  | .duplicateState _ _ => true
  | _ => false

/-- What the use of a constant does. -/
inductive Deed.IsUse : Deed → Prop
  | mk (name : String) : IsUse (.reserve name ("const " ++ identifier name ++ " = undefined;"))

/-- What the blocks of a diagram do: constants are used, and definitions are made. -/
inductive Diagram.Hoists {ρ : Type} (d : Diagram ρ) : Deed → Prop
  | use {deed : Deed} : deed.IsUse → Hoists d deed
  | define {r : ρ} {name : String} (text : String) : (d.block r).kind ∈ Catalog.definitionKinds →
    (d.block r).fieldText "NAME" = .ok name → Hoists d (.register name text)

/-- The declarations that a block can make. What a constant is given depends on the block in its
socket. -/
inductive Block.Defines {ρ : Type} (b : Block ρ) : String → String → Prop
  | constant {name : String} (value : String) : b.kind = "custom_constant_define" →
    b.fieldText "NAME" = .ok name →
    Defines b name ("const " ++ identifier name ++ " = " ++ value ++ ";")
  | function {name : String} : b.kind = "custom_function_define" →
    b.fieldText "NAME" = .ok name → Defines b name (StatementRule.functionText b name)

/-- Statement `q` is statement `r` or stands in a stack of it, at whatever depth. -/
inductive Diagram.Encloses {ρ : Type} (d : Diagram ρ) : ρ → ρ → Prop
  | self (r : ρ) : Encloses d r r
  | stack {r u q : ρ} {socket : String} {rs : List ρ} :
    d.stack ((d.block r).head? socket) = .ok rs → u ∈ rs → Encloses d u q → Encloses d r q

/-- What one statement of a diagram does, with those in its stacks. -/
inductive Diagram.HoistsIn {ρ : Type} (d : Diagram ρ) (r : ρ) : Deed → Prop
  | use {deed : Deed} : deed.IsUse → HoistsIn d r deed
  | define {q : ρ} {name text : String} : d.Encloses r q → (d.block q).Defines name text →
    HoistsIn d r (.register name text)

def Deed.name : Deed → String
  | .reserve name _ => name
  | .register name _ => name

namespace Definitions

theorem keys_apply (d : Definitions) (deed : Deed) :
    Table.keys (deed.apply d).entries =
      if identifier deed.name ∈ Table.keys d.entries then Table.keys d.entries
      else Table.keys d.entries ++ [identifier deed.name] := by
  cases deed with
  | reserve name text => exact Table.keys_reserve _ _ _
  | register name text => exact Table.keys_put _ _ _

theorem keys_after (d : Definitions) (ds : List Deed) :
    Table.keys d.entries <+: Table.keys (d.after ds).entries := by
  induction ds generalizing d with
  | nil => exact List.prefix_refl _
  | cons deed ds ih =>
    apply List.IsPrefix.trans _ (ih (deed.apply d))
    rw [keys_apply]
    split
    · exact List.prefix_refl _
    · exact List.prefix_append _ _

theorem mem_keys_after {deed : Deed} {ds : List Deed} (h : deed ∈ ds) (d : Definitions) :
    identifier deed.name ∈ Table.keys (d.after ds).entries := by
  induction ds generalizing d with
  | nil => cases h
  | cons deed' ds ih =>
    rcases List.mem_cons.1 h with rfl | h
    · apply (keys_after (deed.apply d) ds).subset
      rw [keys_apply]
      split
      · assumption
      · exact List.mem_append_right _ (List.mem_singleton_self _)
    · exact ih h _

/-- The second table is what deeds that are allowed have made of the first. -/
def Becomes (D : Deed → Prop) (d d' : Definitions) : Prop :=
  ∃ ds : List Deed, (∀ deed ∈ ds, D deed) ∧ d' = d.after ds

namespace Becomes

variable {D E : Deed → Prop} {d d₁ d₂ : Definitions}

theorem refl (D : Deed → Prop) (d : Definitions) : d.Becomes D d := ⟨[], nofun, rfl⟩

theorem single {deed : Deed} (h : D deed) (d : Definitions) : d.Becomes D (deed.apply d) :=
  ⟨[deed], List.forall_mem_singleton.2 h, rfl⟩

theorem trans (h : d.Becomes D d₁) (h' : d₁.Becomes D d₂) : d.Becomes D d₂ := by
  obtain ⟨ds, hds, rfl⟩ := h
  obtain ⟨ds', hds', rfl⟩ := h'
  exact ⟨ds ++ ds', List.forall_mem_append.2 ⟨hds, hds'⟩, (after_append _ _ _).symm⟩

theorem mono (h : d.Becomes D d₁) (hD : ∀ deed, D deed → E deed) : d.Becomes E d₁ := by
  obtain ⟨ds, hds, hd⟩ := h
  exact ⟨ds, fun deed hm => hD deed (hds deed hm), hd⟩

end Becomes
end Definitions

variable {ρ α β : Type} {D E : Deed → Prop}

/-- The second context is what some steps have made of the first, by deeds that are allowed. -/
structure Context.Grows (D : Deed → Prop) (c c' : Context ρ) : Prop where
  active : c'.active = c.active
  definitions : c.definitions.Becomes D c'.definitions
  events : ∃ es : List Event, (∀ e ∈ es, e.isDuplicate = false) ∧ c'.events = c.events ++ es

namespace Context.Grows

variable {c c₁ c₂ : Context ρ}

theorem refl (D : Deed → Prop) (c : Context ρ) : c.Grows D c :=
  ⟨rfl, .refl D _, [], nofun, (List.append_nil _).symm⟩

theorem trans (h : c.Grows D c₁) (h' : c₁.Grows D c₂) : c.Grows D c₂ := by
  obtain ⟨ha, hd, es, hes, he⟩ := h
  obtain ⟨ha', hd', es', hes', he'⟩ := h'
  refine ⟨ha'.trans ha, hd.trans hd', es ++ es', List.forall_mem_append.2 ⟨hes, hes'⟩, ?_⟩
  rw [he', he, List.append_assoc]

theorem mono (h : c.Grows D c₁) (hD : ∀ deed, D deed → E deed) : c.Grows E c₁ :=
  ⟨h.active, h.definitions.mono hD, h.events⟩

theorem countP_events (h : c.Grows D c₁) :
    c₁.events.countP Event.isDuplicate = c.events.countP Event.isDuplicate := by
  obtain ⟨es, hes, he⟩ := h.events
  have hz : es.countP Event.isDuplicate = 0 :=
    List.countP_eq_zero.2 fun e hm => by rw [hes e hm]; nofun
  rw [he, List.countP_append, hz, Nat.add_zero]

end Context.Grows

namespace Compile

/-- The context that a run leaves, whether it succeeds or fails. -/
def left : EStateM.Result Fault (Context ρ) α → Context ρ
  | .ok _ c => c
  | .error _ c => c

/-- The end of a run with something made of its result, if it has one. -/
def ending (f : α → β) : EStateM.Result Fault (Context ρ) α → EStateM.Result Fault (Context ρ) β
  | .ok a c => .ok (f a) c
  | .error e c => .error e c

theorem map_apply (x : Compile ρ α) (f : α → β) (c : Context ρ) :
    (x >>= fun a => Pure.pure (f a)) c = ending f (x c) := by
  change EStateM.bind x (fun a => Pure.pure (f a)) c = _
  rw [EStateM.bind]
  cases x c <;> rfl

theorem left_ending (f : α → β) (u : EStateM.Result Fault (Context ρ) α) :
    left (ending f u) = left u := by
  cases u <;> rfl

/-- The context grows by the step, wherever it starts from. -/
def Grows (D : Deed → Prop) (x : Compile ρ α) : Prop :=
  ∀ c : Context ρ, c.Grows D (left (x c))

namespace Grows

theorem ok {x : Compile ρ α} {a : α} {c c' : Context ρ} (hx : x.Grows D) (h : x c = .ok a c') :
    c.Grows D c' := by
  have hc := hx c
  rw [h] at hc
  exact hc

theorem pure (a : α) : (Pure.pure a : Compile ρ α).Grows D := fun c => .refl D c

theorem fail (f : Fault) : (Compile.fail f : Compile ρ α).Grows D := fun c => .refl D c

theorem lift (x : Except Fault α) : (Compile.lift x : Compile ρ α).Grows D := by
  cases x with
  | ok a => exact .pure a
  | error f => exact .fail f

theorem mono {x : Compile ρ α} (h : x.Grows D) (hD : ∀ deed, D deed → E deed) : x.Grows E :=
  fun c => (h c).mono hD

theorem bind {x : Compile ρ α} {f : α → Compile ρ β} (hx : x.Grows D)
    (hf : ∀ a, (f a).Grows D) : (x >>= f).Grows D := by
  intro c
  have hc := hx c
  change c.Grows D (left (EStateM.bind x f c))
  rw [EStateM.bind]
  cases h : x c with
  | error e c₁ =>
    rw [h] at hc
    exact hc
  | ok a c₁ =>
    rw [h] at hc
    exact hc.trans (hf a c₁)

theorem known {x : Except Fault α} {f : α → Compile ρ β} (hf : ∀ a, x = .ok a → (f a).Grows D) :
    (Compile.lift x >>= f).Grows D := by
  cases x with
  | ok a => exact hf a rfl
  | error e => exact .fail e

theorem map {x : Compile ρ α} (hx : x.Grows D) (f : α → β) :
    (x >>= fun a => Pure.pure (f a)).Grows D :=
  hx.bind fun a => .pure (f a)

theorem log {e : Event} (h : e.isDuplicate = false) :
    (Compile.log e : Compile ρ Unit).Grows D := fun _ =>
  ⟨rfl, .refl D _, [e], List.forall_mem_singleton.2 h, rfl⟩

theorem register {name text : String} (h : D (.register name text)) :
    (Compile.register name text : Compile ρ Unit).Grows D := fun _ =>
  ⟨rfl, .single h _, [], nofun, (List.append_nil _).symm⟩

theorem reserve {name text : String} (h : D (.reserve name text)) :
    (Compile.reserve name text : Compile ρ Unit).Grows D := fun _ =>
  ⟨rfl, .single h _, [], nofun, (List.append_nil _).symm⟩

theorem mapM_of_mem {xs : List α} {f : α → Compile ρ β} (h : ∀ a ∈ xs, (f a).Grows D) :
    (xs.mapM f).Grows D := by
  induction xs with
  | nil => exact .pure []
  | cons a xs ih =>
    obtain ⟨ha, hxs⟩ := List.forall_mem_cons.1 h
    rw [List.mapM_cons]
    exact ha.bind fun b => (ih hxs).map (b :: ·)

theorem mapM {xs : List α} {f : α → Compile ρ β} (h : ∀ a, (f a).Grows D) :
    (xs.mapM f).Grows D :=
  mapM_of_mem fun a _ => h a

theorem forM {xs : List α} {f : α → Compile ρ Unit} (h : ∀ a, (f a).Grows D) :
    (xs.forM f).Grows D := by
  induction xs with
  | nil => exact .pure ()
  | cons a xs ih => exact (h a).bind fun _ => ih

theorem visiting {d : Diagram ρ} {r : ρ} {x : Compile ρ α} (hx : x.Grows D) :
    (Compile.visiting d r x).Grows D := by
  intro c
  have hc := hx { c with active := r :: c.active }
  have hl {c₁ : Context ρ} (h : Context.Grows D { c with active := r :: c.active } c₁) :
      c.Grows D (leave c₁) := by
    refine ⟨?_, h.definitions, h.events⟩
    rw [leave, h.active]
    rfl
  rw [Compile.visiting]
  split
  · exact .refl D c
  · cases h : x { c with active := r :: c.active } with
    | ok a c₁ =>
      rw [h] at hc
      exact hl hc
    | error e c₁ =>
      rw [h] at hc
      exact hl hc

end Grows
end Compile

open Compile (Grows)

namespace Diagram.HoistsIn

variable {d : Diagram ρ} {r u : ρ} {deed : Deed}

theorem hoists (h : d.HoistsIn r deed) : d.Hoists deed := by
  cases h with
  | use hu => exact .use hu
  | define _ hd =>
    cases hd with
    | constant value hk hn => exact .define _ (by rw [hk]; decide) hn
    | function hk hn => exact .define _ (by rw [hk]; decide) hn

theorem stack {socket : String} {rs : List ρ}
    (hr : d.stack ((d.block r).head? socket) = .ok rs) (hu : u ∈ rs) (h : d.HoistsIn u deed) :
    d.HoistsIn r deed := by
  cases h with
  | use hd => exact .use hd
  | define he hd => exact .define (.stack hr hu he) hd

end Diagram.HoistsIn

/-- A way of compiling single blocks under which contexts grow. -/
structure Generator.Growing (g : Generator ρ) : Prop where
  expression (r : ρ) : (g.expression r).Grows Deed.IsUse
  statement (r : ρ) : (g.statement r).Grows (g.diagram.HoistsIn r)

/-- The context grows by the statements in the stacks of a block. -/
def Generator.Admits (g : Generator ρ) (D : Deed → Prop) (b : Block ρ) : Prop :=
  ∀ socket rs, g.diagram.stack (b.head? socket) = .ok rs → ∀ r ∈ rs, (g.statement r).Grows D

namespace Generator.Growing

variable {g : Generator ρ} {b : Block ρ}

theorem fragments {top : Option ρ}
    (ht : ∀ rs, g.diagram.stack top = .ok rs → ∀ r ∈ rs, (g.statement r).Grows D) :
    (g.fragments top).Grows D :=
  .known fun rs hr => .mapM_of_mem (ht rs hr)

theorem sequence (hb : g.Admits D b) (socket : String) :
    (g.sequence (b.head? socket)).Grows D :=
  (fragments (hb socket)).map _

theorem steps (site : Site) {rs : List ρ} (hr : ∀ r ∈ rs, (g.statement r).Grows D) :
    (StatementRule.steps g site rs).Grows D := by
  induction rs with
  | nil => exact .pure _
  | cons r rs ih =>
    obtain ⟨hr, hrs⟩ := List.forall_mem_cons.1 hr
    refine hr.bind fun fragment => ?_
    split
    · split
      · exact (Grows.log rfl).map _
      · exact .pure _
    · exact (ih hrs).map _

variable (h : g.Growing)

include h

theorem value (child : Option ρ) (context : Order) (default : String) :
    (g.value child context default).Grows Deed.IsUse := by
  cases child with
  | none => exact .pure _
  | some r => exact (h.expression r).map _

theorem expand (b : Block ρ) (parts : List Part) : (g.expand b parts).Grows Deed.IsUse := by
  induction parts with
  | nil => exact .pure _
  | cons part parts ih =>
    cases part with
    | text s => exact ih.map _
    | slot socket context default => exact (h.value _ _ _).bind fun _ => ih.map _
    | fail f => exact .fail f

theorem fill (b : Block ρ) {t : Template}
    (ht : ∀ e, t.reserves = some e → (Deed.reserve e.1 e.2).IsUse) :
    (g.fill b t).Grows Deed.IsUse := by
  have he := (h.expand b t.parts).map fun s => (⟨s, t.order⟩ : Expression)
  rw [Generator.fill]
  cases hr : t.reserves with
  | none => exact he
  | some e => exact (Grows.reserve (ht e hr)).bind fun _ => he

theorem admits (b : Block ρ) : g.Admits g.diagram.Hoists b := by
  intro socket rs _ r _
  exact (h.statement r).mono fun _ hd => hd.hoists

section

variable (hu : ∀ deed : Deed, deed.IsUse → D deed)

include hu

theorem valueIn (child : Option ρ) (context : Order) (default : String) :
    (g.value child context default).Grows D :=
  (h.value child context default).mono hu

theorem localTransition (b : Block ρ) : (g.localTransition b).Grows D := by
  rw [Generator.localTransition]
  split
  · exact .fail _
  · exact (Grows.lift _).bind fun _ => (h.valueIn hu _ _ _).map _

theorem globalTransition (b : Block ρ) (tier : Tier) : (g.globalTransition b tier).Grows D :=
  (Grows.lift _).bind fun _ => (h.valueIn hu _ _ _).map _

theorem branch (hb : g.Admits D b) (i : Nat) : (StatementRule.branch g b i).Grows D :=
  (h.valueIn hu _ _ _).bind fun _ => (sequence hb _).map _

theorem branches (hb : g.Admits D b) : (StatementRule.branches.run g b).Grows D := by
  refine (Grows.lift _).bind fun is => (Grows.mapM (h.branch hu hb)).bind fun cases => ?_
  split
  · exact (sequence hb _).map _
  · exact .pure _

/-- Statements of the table, whatever their rule. -/
theorem run (hb : g.Admits D b) {rule : StatementRule}
    (hk : StatementRule.ofKind? b.kind = some rule)
    (hd : ∀ name text, b.Defines name text → D (.register name text)) :
    (rule.run g b).Grows D := by
  cases rule with
  | inline parts => exact (h.expand _ parts).mono hu
  | actionSequence => exact .known fun rs hr => (steps _ (hb "DO" rs hr)).map _
  | setMemory | declareVariable | setVariable =>
    exact (Grows.lift _).bind fun _ => (h.valueIn hu _ _ _).map _
  | branches => exact h.branches hu hb
  | scope => exact (sequence hb _).bind fun _ => (sequence hb _).map _
  | returnState => exact (Grows.lift _).map _
  | defineConstant =>
    refine .known fun name hn => (h.valueIn hu _ _ _).bind fun value => ?_
    have hm := Block.Defines.constant value.text ((StatementRule.suits_ofKind? hk).sole _ rfl) hn
    exact (Grows.register (hd _ _ hm)).map _
  | defineFunction =>
    refine .known fun name hn => ?_
    have hm := Block.Defines.function ((StatementRule.suits_ofKind? hk).sole _ rfl) hn
    exact (Grows.register (hd _ _ hm)).map _
  | transition => exact (h.localTransition hu _).map _

end

theorem state (b : Block ρ) : (g.state b).Grows g.diagram.Hoists := by
  have hb := h.admits b
  rw [Generator.state, Watch.state]
  split
  · exact .fail _
  · refine (Grows.lift _).bind fun _ => (Grows.log rfl).bind fun _ => ?_
    refine (sequence hb _).bind fun _ => (sequence hb _).bind fun _ =>
      (sequence hb _).bind fun _ => ?_
    refine ((Grows.lift _).bind fun _ => ?_).bind fun _ => (Grows.lift _).map _
    exact .mapM fun _ => .visiting (h.localTransition (fun _ => .use) _)

theorem globalBlock (r : ρ) : (g.globalBlock r).Grows g.diagram.Hoists := by
  rw [Generator.globalBlock]
  split
  · exact .fail _
  · exact h.globalTransition (fun _ => .use) _ _

theorem preambleBlock (r : ρ) : (g.preambleBlock r).Grows g.diagram.Hoists := by
  rw [Generator.preambleBlock]
  split
  · exact ((h.statement r).mono fun _ hd => hd.hoists).map _
  · exact .log rfl

theorem preamble (tops : List ρ) : (g.preamble tops).Grows g.diagram.Hoists := by
  induction tops with
  | nil => exact .pure ()
  | cons top tops ih =>
    exact (Grows.lift _).bind fun _ => (Grows.forM h.preambleBlock).bind fun _ => ih

end Generator.Growing

namespace ValueRule

theorem isUse_of_reserves {rule : ValueRule} {b : Block ρ} {template : Template}
    (h : rule.template b = .ok template) {entry : String × String}
    (he : template.reserves = some entry) : (Deed.reserve entry.1 entry.2).IsUse := by
  cases rule with
  | constant =>
    obtain ⟨name, -, rfl⟩ := map_eq_ok.1 h
    cases he
    exact .mk name
  | _ =>
    rw [reserves_eq_none h nofun] at he
    cases he

end ValueRule

theorem Generator.growing_ofDepth (d : Diagram ρ) (n : Nat) : (ofDepth d n).Growing := by
  induction n with
  | zero => exact ⟨fun _ => .fail _, fun _ => .fail _⟩
  | succ n ih =>
    have hd : (ofDepth d n).diagram = d := diagram_ofDepth d n
    refine ⟨fun r => ?_, fun r => ?_⟩
    · rw [expression_succ]
      split
      · exact .fail _
      · refine .visiting (.known fun template ht => ?_)
        exact ih.fill _ fun e he => ValueRule.isUse_of_reserves ht he
    · rw [statement_succ]
      split
      · exact .fail _
      · rename_i rule hk
        refine .visiting (ih.run (fun _ => .use) ?_ hk fun _ _ => .define (.self r))
        intro socket rs hr u hu
        rw [hd] at hr
        have hg := ih.statement u
        rw [hd] at hg
        exact hg.mono fun _ => .stack hr hu

end BlockMachine

import BlockMachine.Proofs.Compiler.Demands
import BlockMachine.Proofs.Compiler.Matching
import BlockMachine.Proofs.Compiler.Settled
import BlockMachine.Proofs.Compiler.Watch

namespace BlockMachine

open Compile

/-- The branches with the given numbers, and what is done otherwise. -/
def StatementRule.branchesOf {ρ : Type} (g : Generator ρ) (b : Block ρ) (is : List Nat) :
    Compile ρ String := do
  let code := " else ".intercalate (← is.mapM (branch g b))
  if hasElse b then
    let body ← g.sequence (b.head? "ELSE")
    return code ++ " else \x7b\n" ++ indented body ++ "\x7d\n"
  else return code ++ "\n"

namespace Matching

variable {ρ σ α : Type} (m : Matching ρ σ)

/-- Two blocks that read alike, but for the numbers of their slots and branches. -/
structure Blocks (b : Block ρ) (b' : Block σ) : Prop where
  kind : b.kind = b'.kind
  fault (f : Site → RuleFault) : m.fault (.rule (f b.site)) (.rule (f b'.site))
  format (f : Site → FormatFault) : m.fault (.format (f b.site)) (.format (f b'.site))
  event (e : Site → Event) : m.event (e b.site) (e b'.site)
  field? (name : String) : b.field? name = b'.field? name
  hasElse : StatementRule.hasElse b = StatementRule.hasElse b'
  value? (socket : String) : Option.Rel m.refs (b.value? socket) (b'.value? socket)
  head? (socket : String) : Option.Rel m.refs (b.head? socket) (b'.head? socket)
  next : Option.Rel m.refs b.next b'.next

/-- The numbers of slots and branches of two blocks, where their kind has any. -/
structure Counts (b : Block ρ) (b' : Block σ) : Prop where
  slots : ValueRule.ofKind? b.kind = some .list →
    m.Answers Eq (ValueRule.slotCount b) (ValueRule.slotCount b')
  branches : StatementRule.ofKind? b.kind = some .branches →
    m.Answers Eq (StatementRule.branchIndices b) (StatementRule.branchIndices b')

/-- Blocks that match read alike, and the stacks from them on match block by block. -/
structure Reads (d : Diagram ρ) (d' : Diagram σ) : Prop where
  block {r : ρ} {r' : σ} : m.refs r r' → m.Blocks (d.block r) (d'.block r')
  stack {r : ρ} {r' : σ} : m.refs r r' →
    m.Answers (List.Forall₂ m.refs) (d.stack (some r)) (d'.stack (some r'))

/-- Diagrams that match at every depth, whatever blocks are being compiled. -/
structure Diagrams (d : Diagram ρ) (d' : Diagram σ) : Prop where
  nil : m.active [] []
  cons {r : ρ} {r' : σ} {rs : List ρ} {rs' : List σ} : m.refs r r' → m.active rs rs' →
    m.active (r :: rs) (r' :: rs')
  tail {rs : List ρ} {rs' : List σ} : m.active rs rs' → m.active rs.tail rs'.tail
  tooDeep : m.fault (.defect .tooDeep) (.defect .tooDeep)
  bound : d.bound = d'.bound
  block {r : ρ} {r' : σ} : m.refs r r' → m.Blocks (d.block r) (d'.block r')
  counts {r : ρ} {r' : σ} : m.refs r r' → m.Counts (d.block r) (d'.block r')
  seen {r : ρ} {r' : σ} {rs : List ρ} {rs' : List σ} : m.refs r r' → m.active rs rs' →
    d.seen r rs = d'.seen r' rs'

variable {m} {b : Block ρ} {b' : Block σ}

namespace Blocks

theorem fieldTextD (h : m.Blocks b b') (name default : String) :
    b.fieldTextD name default = b'.fieldTextD name default := by
  rw [Block.fieldTextD, Block.fieldTextD, h.field?]

theorem fieldText (h : m.Blocks b b') (name : String) :
    m.Answers Eq (b.fieldText name) (b'.fieldText name) := by
  rw [Block.fieldText, Block.fieldText, Block.field, Block.field, h.field?]
  cases b'.field? name with
  | none => exact .error (h.fault (.missingField name))
  | some v => exact .ok rfl

theorem isNone_value? (h : m.Blocks b b') (socket : String) :
    (b.value? socket).isNone = (b'.value? socket).isNone := by
  have hr := h.value? socket
  generalize b.value? socket = x at hr ⊢
  generalize b'.value? socket = y at hr ⊢
  cases hr <;> rfl

end Blocks

variable (m) in
/-- Parts of templates that give the same text. -/
inductive Parts : Part → Part → Prop
  | text (s : String) : Parts (.text s) (.text s)
  | slot (socket : String) (context : Order) (default : String) :
    Parts (.slot socket context default) (.slot socket context default)
  | fail {f g : Fault} : m.fault f g → Parts (.fail f) (.fail g)

variable (m) in
structure Templates (t t' : Template) : Prop where
  parts : List.Forall₂ m.Parts t.parts t'.parts
  order : t.order = t'.order
  reserves : t.reserves = t'.reserves

theorem parts_same {parts : List Part} (h : isFaultless parts = true) :
    List.Forall₂ m.Parts parts parts := by
  apply List.forall₂_same.2
  intro p hp
  cases p with
  | text s => exact .text s
  | slot socket context default => exact .slot socket context default
  | fail f => exact absurd hp (fail_not_mem h)

theorem Templates.same {t : Template} (h : isFaultless t.parts = true) : m.Templates t t :=
  ⟨parts_same h, rfl, rfl⟩

theorem numberOf (h : m.Blocks b b') :
    m.Answers Eq (ValueRule.numberOf b) (ValueRule.numberOf b') := by
  rw [ValueRule.numberOf, ValueRule.numberOf, h.field?]
  cases b'.field? "NUM" with
  | none => exact .ok rfl
  | some v =>
    cases v with
    | text s =>
      dsimp only
      cases Numeral.ofField? s with
      | none => exact .error (h.fault (.invalidNumber s))
      | some x => exact .ok rfl
    | int n =>
      dsimp only
      cases Binary64.ofInt? n with
      | none => exact .error (m.fault_refl (by rintro ⟨⟩))
      | some x => exact .ok rfl
    | float x => exact .ok rfl
    | bool v => exact .ok rfl

theorem callTemplate (h : m.Blocks b b') :
    m.Templates (ValueRule.callTemplate b) (ValueRule.callTemplate b') := by
  have hn := h.fieldText "NAME"
  rw [ValueRule.callTemplate, ValueRule.callTemplate]
  generalize b.fieldText "NAME" = x at hn ⊢
  generalize b'.fieldText "NAME" = y at hn ⊢
  cases hn with
  | ok hn =>
    cases hn
    exact .same rfl
  | error hf => exact ⟨.cons (.slot ..) (.cons (.fail hf) .nil), rfl, rfl⟩

theorem template (h : m.Blocks b b') {rule : ValueRule} (hr : rule.isInlineFaultless = true)
    (hs : rule = .list → m.Answers Eq (ValueRule.slotCount b) (ValueRule.slotCount b')) :
    m.Answers m.Templates (rule.template b) (rule.template b') := by
  have hf {name : String} {f : String → Template} (hp : ∀ s, isFaultless (f s).parts = true) :
      m.Answers m.Templates ((b.fieldText name).map f) ((b'.fieldText name).map f) :=
    (h.fieldText name).map fun s _ he => he ▸ .same (hp s)
  cases rule with
  | inline parts order => exact .ok (.same hr)
  | boolean =>
    rw [ValueRule.template, ValueRule.template, h.fieldTextD]
    exact .ok (.same rfl)
  | number => exact (numberOf h).map fun x _ he => he ▸ .same rfl
  | text =>
    rw [ValueRule.template, ValueRule.template, h.fieldTextD]
    exact .ok (.same rfl)
  | comparison =>
    rw [ValueRule.template, ValueRule.template, h.fieldTextD]
    cases Table.get? ValueRule.comparisons (b'.fieldTextD "OP" "EQ") with
    | none => exact .error (h.fault (.unknownComparison _))
    | some o => exact .ok (.same rfl)
  | connective =>
    rw [ValueRule.template, ValueRule.template, h.fieldTextD]
    cases Table.get? ValueRule.connectives (b'.fieldTextD "OP" "AND") with
    | none => exact .error (h.fault (.unknownConnective _))
    | some o =>
      dsimp only
      rw [ValueRule.connectiveDefault, h.isNone_value?, h.isNone_value?]
      exact .ok (.same rfl)
  | arithmetic =>
    rw [ValueRule.template, ValueRule.template, h.fieldTextD]
    split
    · exact .ok (.same rfl)
    · cases Table.get? ValueRule.arithmetics (b'.fieldTextD "OP" "ADD") with
      | none => exact .error (h.fault (.unknownArithmetic _))
      | some o => exact .ok (.same rfl)
  | list =>
    exact (hs rfl).map fun n _ he => he ▸ .same (ValueRule.isFaultless_listTemplate n)
  | coordinate =>
    rw [ValueRule.template, ValueRule.template, ValueRule.coordinateTemplate,
      ValueRule.coordinateTemplate, h.fieldTextD]
    split
    · exact .ok (.same rfl)
    · exact .error (h.fault (.unknownCoordinate _))
  | gameConstant | property | memory | localVariable | stateName | constant =>
    exact hf fun _ => rfl
  | functionCall => exact .ok (callTemplate h)

variable {d : Diagram ρ} {d' : Diagram σ} {r : ρ} {r' : σ}

theorem Diagrams.stackFrom (h : m.Diagrams d d') (steps : Nat) {visited : List ρ}
    {visited' : List σ} {top : Option ρ} {top' : Option σ}
    (hv : m.active visited visited') (ht : Option.Rel m.refs top top') :
    m.Answers (List.Forall₂ m.refs) (d.stackFrom steps visited top)
      (d'.stackFrom steps visited' top') := by
  induction steps generalizing visited visited' top top' with
  | zero =>
    cases ht with
    | none => exact .ok .nil
    | some hr => exact .error h.tooDeep
  | succ steps ih =>
    cases ht with
    | none => exact .ok .nil
    | some hr =>
      have hb := h.block hr
      rw [Diagram.stackFrom, Diagram.stackFrom, h.seen hr hv]
      split
      · exact .error (hb.fault .cycle)
      · exact (ih (h.cons hr hv) hb.next).map fun _ _ hs => .cons hr hs

theorem Diagrams.reads (h : m.Diagrams d d') : m.Reads d d' where
  block := h.block
  stack hr := by
    rw [Diagram.stack, Diagram.stack, h.bound]
    exact h.stackFrom _ h.nil (.some hr)

theorem Reads.stackOption (h : m.Reads d d') {top : Option ρ} {top' : Option σ}
    (ht : Option.Rel m.refs top top') :
    m.Answers (List.Forall₂ m.refs) (d.stack top) (d'.stack top') := by
  cases ht with
  | none => exact .ok .nil
  | some hr => exact h.stack hr

theorem Runs.visiting {β : Type} {n : Matching ρ σ} {R : α → β → Prop} {x : Compile ρ α}
    {y : Compile σ β} (hs : ∀ {rs rs'}, m.active rs rs' → d.seen r rs = d'.seen r' rs')
    (hc : ∀ {rs rs'}, m.active rs rs' → n.active (r :: rs) (r' :: rs'))
    (ht : ∀ {rs rs'}, n.active rs rs' → m.active rs.tail rs'.tail)
    (hf : m.fault (.rule (.cycle (d.site r))) (.rule (.cycle (d'.site r'))))
    (hx : ∀ {rs rs'}, m.active rs rs' → d.seen r rs = false → n.Runs R x y)
    (hfault : n.fault = m.fault) (hevent : n.event = m.event) :
    m.Runs R (visiting d r x) (visiting d' r' y) := by
  intro c c' hm
  rw [Compile.visiting, Compile.visiting, hs hm.active]
  split
  · exact .error hf hm
  · rename_i hn
    rw [Bool.not_eq_true, ← hs hm.active] at hn
    have he := hx hm.active hn { c with active := r :: c.active }
      { c' with active := r' :: c'.active } ⟨hm.definitions, hc hm.active, hevent ▸ hm.events⟩
    have hl {c c'} (h : n.Contexts c c') : m.Contexts (leave c) (leave c') :=
      ⟨h.definitions, ht h.active, hevent ▸ h.events⟩
    generalize x _ = u at he ⊢
    generalize y _ = v at he ⊢
    cases he with
    | ok ha hc => exact .ok ha (hl hc)
    | error hf hc => exact .error (hfault ▸ hf) (hl hc)

theorem Diagrams.visiting {β : Type} {R : α → β → Prop} {x : Compile ρ α} {y : Compile σ β}
    (h : m.Diagrams d d') (hr : m.refs r r') (hx : m.Runs R x y) :
    m.Runs R (visiting d r x) (visiting d' r' y) :=
  .visiting (h.seen hr) (h.cons hr) h.tail ((h.block hr).fault .cycle) (fun _ _ => hx) rfl rfl

variable (m) in
/-- Two ways of compiling single blocks that match on blocks that match. -/
structure Generators (g : Generator ρ) (g' : Generator σ) : Prop where
  diagram : m.Reads g.diagram g'.diagram
  expression {r : ρ} {r' : σ} : m.refs r r' → m.Runs Eq (g.expression r) (g'.expression r')
  statement {r : ρ} {r' : σ} : m.refs r r' → m.Runs Eq (g.statement r) (g'.statement r')

namespace Generators

variable {g : Generator ρ} {g' : Generator σ}

theorem value (h : m.Generators g g') {child : Option ρ} {child' : Option σ}
    (hc : Option.Rel m.refs child child') (context : Order) (default : String) :
    m.Runs Eq (g.value child context default) (g'.value child' context default) := by
  cases hc with
  | none => exact .pure rfl
  | some hr => exact (h.expression hr).bind_eq fun _ => .pure rfl

theorem expand (h : m.Generators g g') (hb : m.Blocks b b') {parts parts' : List Part}
    (hp : List.Forall₂ m.Parts parts parts') :
    m.Runs Eq (g.expand b parts) (g'.expand b' parts') := by
  induction hp with
  | nil => exact .pure rfl
  | cons hp _ ih =>
    cases hp with
    | text s => exact ih.bind_eq fun _ => .pure rfl
    | slot socket context default =>
      exact (h.value (hb.value? socket) context default).bind_eq fun _ =>
        ih.bind_eq fun _ => .pure rfl
    | fail hf => exact .fail hf

theorem fill (h : m.Generators g g') (hb : m.Blocks b b') {t t' : Template}
    (ht : m.Templates t t') : m.Runs Eq (g.fill b t) (g'.fill b' t') := by
  have he := h.expand hb ht.parts
  rw [Generator.fill, Generator.fill, ht.reserves, ht.order]
  cases t'.reserves with
  | none => exact he.bind_eq fun _ => .pure rfl
  | some entry =>
    obtain ⟨name, text⟩ := entry
    exact (Runs.modifyDefinitions (·.reserve name text)).bind_eq fun _ =>
      he.bind_eq fun _ => .pure rfl

theorem fragments (h : m.Generators g g') {top : Option ρ} {top' : Option σ}
    (ht : Option.Rel m.refs top top') : m.Runs Eq (g.fragments top) (g'.fragments top') :=
  (Runs.lift (h.diagram.stackOption ht)).bind fun _ _ hs => .mapM hs fun _ _ hr => h.statement hr

theorem sequence (h : m.Generators g g') {top : Option ρ} {top' : Option σ}
    (ht : Option.Rel m.refs top top') : m.Runs Eq (g.sequence top) (g'.sequence top') :=
  (h.fragments ht).bind_eq fun _ => .pure rfl

theorem collect (h : m.Generators g g') {top : Option ρ} {top' : Option σ} {w : Watch ρ}
    {build : Block ρ → Compile ρ α} {build' : Block σ → Compile σ α}
    (ht : Option.Rel m.refs top top')
    (hb : ∀ {r r'}, m.refs r r' → m.Runs Eq (w.visiting g.diagram r (build (g.diagram.block r)))
      (visiting g'.diagram r' (build' (g'.diagram.block r')))) :
    m.Runs Eq (w.collect g top build) (g'.collect top' build') :=
  (Runs.lift (h.diagram.stackOption ht)).bind fun _ _ hs => .mapM hs fun _ _ hr => hb hr

theorem condition (h : m.Generators g g') (hb : m.Blocks b b') (default : String) :
    m.Runs Eq (g.condition b default) (g'.condition b' default) :=
  h.value (hb.value? "CONDITION") .atomic default

theorem localTransition (h : m.Generators g g') (hb : m.Blocks b b') :
    m.Runs Eq (g.localTransition b) (g'.localTransition b') := by
  rw [Generator.localTransition, Generator.localTransition, hb.kind]
  split
  · exact Runs.fail (hb.fault (.unknownKind .localTransition))
  · exact (Runs.lift (hb.fieldText "TARGET")).bind_eq fun _ =>
      (h.condition hb "false").bind_eq fun _ => .pure rfl

theorem steps (h : m.Generators g g') {site site' : Site}
    (he : ∀ e : Site → Event, m.event (e site) (e site')) {rs : List ρ} {rs' : List σ}
    (hs : List.Forall₂ m.refs rs rs') :
    m.Runs Eq (StatementRule.steps g site rs) (StatementRule.steps g' site' rs') := by
  induction hs with
  | nil => exact .pure rfl
  | @cons r r' rs rs' hr hs ih =>
    rw [StatementRule.steps, StatementRule.steps, (h.diagram.block hr).kind]
    refine (h.statement hr).bind_eq fun fragment => ?_
    split
    · have hn : rs.isEmpty = rs'.isEmpty := by cases hs <;> rfl
      rw [hn, hs.length_eq]
      split
      · exact (Runs.log (he (.skippedAfterReturn _))).bind_eq fun _ => .pure rfl
      · exact .pure rfl
    · exact ih.bind_eq fun _ => .pure rfl

theorem actionSequence (h : m.Generators g g') (hb : m.Blocks b b') :
    m.Runs Eq (StatementRule.actionSequence.run g b) (StatementRule.actionSequence.run g' b') :=
  (Runs.lift (h.diagram.stackOption (hb.head? "DO"))).bind fun _ _ hs =>
    (h.steps hb.event hs).bind_eq fun _ => .pure rfl

theorem branch (h : m.Generators g g') (hb : m.Blocks b b') (i : Nat) :
    m.Runs Eq (StatementRule.branch g b i) (StatementRule.branch g' b' i) :=
  (h.value (hb.value? _) .none "false").bind_eq fun _ =>
    (h.sequence (hb.head? _)).bind_eq fun _ => .pure rfl

theorem branchesOf (h : m.Generators g g') (hb : m.Blocks b b') (is : List Nat) :
    m.Runs Eq (StatementRule.branchesOf g b is) (StatementRule.branchesOf g' b' is) := by
  refine (Runs.mapM (List.forall₂_eq_eq_eq ▸ rfl : List.Forall₂ Eq is is)
    fun i _ he => he ▸ h.branch hb i).bind_eq fun cases => ?_
  rw [hb.hasElse]
  split
  · exact (h.sequence (hb.head? "ELSE")).bind_eq fun _ => .pure rfl
  · exact .pure rfl

/-- Statements are compiled alike, whatever their rule. -/
theorem run (h : m.Generators g g') (hb : m.Blocks b b') {rule : StatementRule}
    (hr : rule.isInlineFaultless = true) (hi : rule = .branches →
      m.Answers Eq (StatementRule.branchIndices b) (StatementRule.branchIndices b')) :
    m.Runs Eq (rule.run g b) (rule.run g' b') := by
  have hf (name : String) := Runs.lift (hb.fieldText name)
  have hv (socket : String) := h.value (hb.value? socket)
  cases rule with
  | inline parts => exact h.expand hb (parts_same hr)
  | actionSequence => exact h.actionSequence hb
  | setMemory => exact (hf "KEY").bind_eq fun _ => (hv "VALUE" _ _).bind_eq fun _ => .pure rfl
  | branches => exact (Runs.lift (hi rfl)).bind_eq fun is => h.branchesOf hb is
  | scope =>
    refine (h.sequence (hb.head? "VARIABLES")).bind_eq fun _ => ?_
    exact (h.sequence (hb.head? "BODY")).bind_eq fun _ => .pure rfl
  | declareVariable =>
    exact (hf "VAR_NAME").bind_eq fun _ => (hv "INITIAL_VALUE" _ _).bind_eq fun _ => .pure rfl
  | setVariable =>
    exact (hf "VAR_NAME").bind_eq fun _ => (hv "VALUE" _ _).bind_eq fun _ => .pure rfl
  | returnState => exact (hf "STATE_NAME").bind_eq fun _ => .pure rfl
  | defineConstant =>
    refine (hf "NAME").bind_eq fun name => (hv "VALUE" _ _).bind_eq fun value => ?_
    exact (Runs.modifyDefinitions (·.register name _)).bind_eq fun _ => .pure rfl
  | defineFunction =>
    refine (hf "NAME").bind_eq fun name => ?_
    rw [hb.fieldTextD, hb.fieldTextD]
    exact (Runs.modifyDefinitions (·.register name _)).bind_eq fun _ => .pure rfl
  | transition => exact (h.localTransition hb).bind_eq fun _ => .pure rfl

theorem inValue (h : m.Generators g g') (hb : m.Blocks b b') (hc : m.Counts b b')
    {rule : ValueRule} (hk : ValueRule.ofKind? b.kind = some rule) :
    m.Runs Eq (lift (rule.template b) >>= g.fill b) (lift (rule.template b') >>= g'.fill b') := by
  have hr := (ValueRule.suits_ofKind? hk).faultless
  refine (Runs.lift (template hb hr ?_)).bind fun _ _ ht => h.fill hb ht
  rintro rfl
  exact hc.slots hk

theorem inStatement (h : m.Generators g g') (hb : m.Blocks b b') (hc : m.Counts b b')
    {rule : StatementRule} (hk : StatementRule.ofKind? b.kind = some rule) :
    m.Runs Eq (rule.run g b) (rule.run g' b') := by
  refine h.run hb (StatementRule.suits_ofKind? hk).faultless ?_
  rintro rfl
  exact hc.branches hk

end Generators

theorem Diagrams.ofDepth (h : m.Diagrams d d') (depth : Nat) :
    m.Generators (.ofDepth d depth) (.ofDepth d' depth) := by
  induction depth with
  | zero => exact ⟨h.reads, fun _ => .fail h.tooDeep, fun _ => .fail h.tooDeep⟩
  | succ depth ih =>
    refine ⟨h.reads, fun {r r'} hr => ?_, fun {r r'} hr => ?_⟩
    · have hb := h.block hr
      rw [Generator.expression_succ, Generator.expression_succ, ← hb.kind]
      cases hk : ValueRule.ofKind? (d.block r).kind with
      | none => exact .fail (hb.fault (.unknownKind .value))
      | some rule => exact h.visiting hr (ih.inValue hb (h.counts hr) hk)
    · have hb := h.block hr
      rw [Generator.statement_succ, Generator.statement_succ, ← hb.kind]
      cases hk : StatementRule.ofKind? (d.block r).kind with
      | none => exact .fail (hb.fault (.unknownKind .statement))
      | some rule => exact h.visiting hr (ih.inStatement hb (h.counts hr) hk)

theorem Reads.wrappedName (h : m.Reads d d') (hb : m.Blocks b b') :
    m.Answers Eq (d.wrappedName b) (d'.wrappedName b') := by
  have hr := hb.value? "STATE"
  rw [Diagram.wrappedName, Diagram.wrappedName]
  generalize b.value? "STATE" = x at hr ⊢
  generalize b'.value? "STATE" = y at hr ⊢
  cases hr with
  | none => exact .ok rfl
  | some hr =>
    have hi := h.block hr
    dsimp only
    rw [hi.kind, hi.fieldTextD]
    split
    · exact hi.fieldText "STATE_NAME"
    · split
      · exact .ok rfl
      · exact .error (m.fault_trans (hb.fault (.notAStateName · _)) (hi.fault (.notAStateName _)))

theorem Reads.interruption (h : m.Reads d d') (hb : m.Blocks b b') :
    m.Answers Eq (d.interruption b) (d'.interruption b') := by
  rw [Diagram.interruption, Diagram.interruption, hb.kind]
  split
  · exact hb.fieldText "STATE_NAME"
  · split
    · exact h.wrappedName hb
    · exact .error (hb.fault (.unknownKind .interruption))

theorem Reads.interruptibleBy (h : m.Reads d d') (hb : m.Blocks b b') :
    m.Answers Eq (d.interruptibleBy b) (d'.interruptibleBy b') := by
  refine (h.stackOption (hb.head? "INTERRUPTIBLE_BY")).bind fun _ _ hs => ?_
  refine (Answers.mapM hs fun _ _ hr => h.interruption (h.block hr)).bind ?_
  rintro names _ rfl
  exact .ok rfl

variable (m) in
/-- Two ways of compiling single blocks, the first one under a watch, that match on the transitions
of a state too. -/
structure Builders (w : Watch ρ) (g : Generator ρ) (g' : Generator σ) : Prop extends
    m.Generators g g' where
  transition {r : ρ} {r' : σ} : m.refs r r' →
    m.Runs Eq (w.visiting g.diagram r (g.localTransition (g.diagram.block r)))
      (visiting g'.diagram r' (g'.localTransition (g'.diagram.block r')))

variable {g : Generator ρ} {g' : Generator σ} {w : Watch ρ}

theorem Builders.state (h : m.Builders w g g') (hb : m.Blocks b b') :
    m.Runs Eq (w.state g b) (g'.state b') := by
  rw [Watch.state, Generator.state, Watch.state, hb.kind]
  split
  · exact Runs.fail (hb.fault (.unknownKind .state))
  · refine (Runs.lift (hb.fieldText "STATE_NAME")).bind_eq fun name => ?_
    refine (Runs.log (hb.event (.compilingState name))).bind_eq fun _ => ?_
    refine (h.sequence (hb.head? "ON_ENTER")).bind_eq fun _ => ?_
    refine (h.sequence (hb.head? "ON_EXECUTE")).bind_eq fun _ => ?_
    refine (h.sequence (hb.head? "ON_EXIT")).bind_eq fun _ => ?_
    refine (h.collect (hb.head? "TRANSITIONS") h.transition).bind_eq fun _ => ?_
    exact (Runs.lift (h.diagram.interruptibleBy hb)).bind_eq fun _ => .pure rfl

namespace Generators

theorem globalTransition (h : m.Generators g g') (hb : m.Blocks b b') (tier : Tier) :
    m.Runs Eq (g.globalTransition b tier) (g'.globalTransition b' tier) := by
  rw [Generator.globalTransition, Generator.globalTransition, hb.fieldTextD]
  exact (Runs.lift (hb.fieldText "TARGET")).bind_eq fun _ =>
    (h.condition hb "() => false").bind_eq fun _ => .pure rfl

theorem globalBlock (h : m.Generators g g') (hr : m.refs r r') :
    m.Runs Eq (g.globalBlock r) (g'.globalBlock r') := by
  have hb := h.diagram.block hr
  rw [Generator.globalBlock, Generator.globalBlock, hb.kind]
  cases Generator.globalTier? (g'.diagram.block r').kind with
  | none => exact .fail (hb.fault .notGlobal)
  | some tier => exact h.globalTransition hb tier

theorem preambleBlock (h : m.Generators g g') (hr : m.refs r r') :
    m.Runs Eq (g.preambleBlock r) (g'.preambleBlock r') := by
  have hb := h.diagram.block hr
  rw [Generator.preambleBlock, Generator.preambleBlock, hb.kind]
  split
  · exact (h.statement hr).bind_eq fun _ => .pure rfl
  · exact .log (hb.event .strayBlock)

theorem preamble (h : m.Generators g g') {tops : List ρ} {tops' : List σ}
    (ht : List.Forall₂ m.refs tops tops') : m.Runs Eq (g.preamble tops) (g'.preamble tops') := by
  induction ht with
  | nil => exact .pure rfl
  | cons hr _ ih =>
    refine (Runs.lift (h.diagram.stack hr)).bind fun _ _ hs => ?_
    exact (Runs.forM hs fun _ _ hr => h.preambleBlock hr).bind_eq fun _ => ih

end Generators

namespace Builders

theorem statesFrom (h : m.Builders w g g') (states : Table State) {rs : List ρ} {rs' : List σ}
    (hs : List.Forall₂ m.refs rs rs') :
    m.Runs Eq (w.statesFrom g states rs) (g'.statesFrom states rs') := by
  induction hs generalizing states with
  | nil => exact .pure rfl
  | cons hr _ ih =>
    have hb := h.diagram.block hr
    refine (h.state hb).bind_eq fun state => ?_
    split
    · exact (Runs.log (hb.event (.duplicateState state.name))).bind_eq fun _ => ih _
    · exact ih _

theorem program (h : m.Builders w g g') (hr : m.refs r r') {beside : List ρ} {beside' : List σ}
    (hs : List.Forall₂ m.refs beside beside') :
    m.Runs Eq (w.program g r beside) (g'.program r' beside') := by
  have hb := h.diagram.block hr
  rw [Watch.program, Generator.program, Watch.program, hb.kind]
  split
  · exact Runs.fail (hb.fault (.unknownKind .programRoot))
  · refine (h.preamble hs).bind_eq fun _ => ?_
    refine (Runs.lift (hb.fieldText "INITIAL_STATE")).bind_eq fun initialState => ?_
    refine (Runs.lift (h.diagram.stackOption (hb.head? "STATES"))).bind fun _ _ hs => ?_
    refine (h.statesFrom [] hs).bind_eq fun states => ?_
    refine (Runs.lift (h.diagram.stackOption (hb.head? "GLOBAL_TRANSITIONS"))).bind fun _ _ hs => ?_
    refine (Runs.mapM hs fun _ _ hr => h.globalBlock hr).bind_eq fun transitions => ?_
    refine Runs.drain.bind_eq fun definitions => ?_
    exact (Runs.log (hb.event (.compiledProgram · _ _ _ _))).bind_eq fun _ => .pure rfl

end Builders

variable (m) in
structure Outcomes {β : Type} (R : α → β → Prop) (x : Outcome α) (y : Outcome β) : Prop where
  result : m.Answers R x.result y.result
  events : List.Forall₂ m.event x.events y.events

theorem Runs.start {β : Type} {R : α → β → Prop} {x : Compile ρ α} {y : Compile σ β}
    (h : m.Runs R x y) (hn : m.active [] []) : m.Outcomes R x.start y.start := by
  have he := h {} {} ⟨rfl, hn, .nil⟩
  rw [Compile.start, Compile.start]
  generalize x {} = u at he ⊢
  generalize y {} = v at he ⊢
  cases he with
  | ok ha hc => exact ⟨.ok ha, hc.events⟩
  | error hf hc => exact ⟨.error hf, hc.events⟩

theorem Outcomes.eq {x y : Outcome α} (h : m.Outcomes Eq x y)
    (hf : ∀ {f g}, m.fault f g → f = g) (he : ∀ {e e'}, m.event e e' → e = e') : x = y := by
  obtain ⟨rx, ex⟩ := x
  obtain ⟨ry, ey⟩ := y
  have hevents : ex = ey := List.forall₂_eq_eq_eq ▸ h.events.imp fun _ _ => he
  have hresult : rx = ry := by
    cases h.result with
    | ok ha => exact congrArg Except.ok ha
    | error hg => exact congrArg Except.error (hf hg)
  rw [hevents, hresult]

namespace Diagrams

variable {tops : List ρ} {tops' : List σ}

theorem isRoot (h : m.Diagrams d d') (hr : m.refs r r') : d.isRoot r = d'.isRoot r' := by
  rw [Diagram.isRoot, Diagram.isRoot, (h.block hr).kind]

theorem severalRoots (h : m.Diagrams d d') (ht : List.Forall₂ m.refs tops tops')
    (ids : List (Option String)) :
    m.fault (.format (.severalRoots (ids ++ tops.map fun r => (d.block r).id)))
      (.format (.severalRoots (ids ++ tops'.map fun r => (d'.block r).id))) := by
  induction ht generalizing ids with
  | nil => exact m.fault_refl nofun
  | @cons r r' tops tops' hr _ ih =>
    refine m.fault_trans ((h.block hr).format fun s =>
      .severalRoots (ids ++ s.id :: tops.map fun r => (d.block r).id)) ?_
    have := ih (ids ++ [(d'.block r').id])
    rw [List.append_assoc, List.append_assoc] at this
    exact this

theorem root (h : m.Diagrams d d') (ht : List.Forall₂ m.refs tops tops') :
    m.Answers m.refs (d.root tops) (d'.root tops') := by
  have hf : List.Forall₂ m.refs (tops.filter d.isRoot) (tops'.filter d'.isRoot) :=
    List.rel_filter (fun _ _ hr => by simp [h.isRoot hr]) ht
  rw [Diagram.root, Diagram.root]
  revert hf
  generalize tops.filter d.isRoot = rs
  generalize tops'.filter d'.isRoot = rs'
  intro hf
  cases hf with
  | nil => exact .error (m.fault_refl nofun)
  | cons hr hs =>
    cases hs with
    | nil => exact .ok hr
    | cons hr' hs => exact .error (h.severalRoots (.cons hr (.cons hr' hs)) [])

theorem builders (h : m.Diagrams d d') (depth : Nat) :
    m.Builders .idle (.ofDepth d depth) (.ofDepth d' depth) where
  toGenerators := h.ofDepth depth
  transition hr := by
    have hg := h.ofDepth depth
    rw [Watch.visiting_idle, Generator.diagram_ofDepth, Generator.diagram_ofDepth]
    exact h.visiting hr (hg.localTransition (h.block hr))

theorem compile (h : m.Diagrams d d') (hr : m.refs r r') (hs : List.Forall₂ m.refs tops tops') :
    m.Outcomes Eq (d.compile r tops) (d'.compile r' tops') := by
  rw [Diagram.compile, Diagram.compile, Diagram.generator, Diagram.generator, h.bound]
  exact ((h.builders _).program hr hs).start h.nil

theorem compileAll (h : m.Diagrams d d') (ht : List.Forall₂ m.refs tops tops') :
    m.Outcomes Eq (d.compileAll tops) (d'.compileAll tops') := by
  have hr := h.root ht
  have hs : List.Forall₂ m.refs (tops.filter (!d.isRoot ·)) (tops'.filter (!d'.isRoot ·)) :=
    List.rel_filter (fun _ _ hr => by simp [h.isRoot hr]) ht
  rw [Diagram.compileAll, Diagram.compileAll]
  generalize d.root tops = x at hr ⊢
  generalize d'.root tops' = y at hr ⊢
  cases hr with
  | ok hr => exact h.compile hr hs
  | error hf => exact ⟨.error hf, .nil⟩

end Diagrams
end Matching
end BlockMachine

import BlockMachine.Proofs.Compiler.Settled
import BlockMachine.Proofs.Compiler.Templates
import BlockMachine.Proofs.Machine.Styled

namespace BlockMachine

open Compile Style

namespace StatementRule

/-- A rule that gives its parts right away closes what they open. -/
def IsNested : StatementRule → Prop
  | .inline parts => ∀ k : Contract, k.Leads [] [] parts
  | _ => True

theorem isNested_fixed {code : String} (h : Fixed [] [] code) : (fixed code).IsNested :=
  fun _ => .between h .nil

theorem isNested_call {function socket default : String} {context : Order}
    (hf : Fixed [] [] function) (hd : Fixed [] [] default) :
    (call function socket context default).IsNested := by
  have hl : Fixed [] [')'] (function ++ "(") := hf.append (by decide)
  exact fun _ => .fixed hl (.slot hd (.fixed (by decide) .nil))

theorem isNested_table : ∀ e ∈ table, e.2.IsNested := by
  simp only [table, List.forall_mem_cons, List.not_mem_nil, false_implies, implies_true, and_true]
  refine ⟨isNested_fixed (by decide), isNested_fixed (by decide), isNested_fixed (by decide),
    isNested_fixed (.literal (by decide +kernel)),
    isNested_fixed (.literal (by decide +kernel)), isNested_call (by decide) (by decide),
    isNested_call (by decide) (by decide), isNested_call (by decide) (by decide), ?moveTo,
    trivial, trivial, trivial, trivial, trivial, trivial, trivial, trivial, trivial, trivial,
    ?stateReference⟩
  case moveTo =>
    exact fun _ => .fixed (b := ['\x7d']) (by decide) (.slot (by decide)
      (.fixed (.literal (by decide +kernel)) .nil))
  case stateReference => exact fun _ => .slot (by decide) (.between (by decide) .nil)

theorem isNested_ofKind? {kind : String} {rule : StatementRule} (h : ofKind? kind = some rule) :
    rule.IsNested :=
  isNested_table (kind, rule) (Table.mem_of_get? h)

/-- The declaration of a function that the author has written. -/
def functionText {ρ : Type} (b : Block ρ) (name : String) : String :=
  "function " ++ identifier name ++ "(" ++
    ", ".intercalate (parameters (b.fieldTextD "PARAMS" "")) ++ ") \x7b\n" ++
    b.fieldTextD "CODE" "" ++ "\n\x7d"

end StatementRule

namespace Contract

variable {ρ α : Type} (k : Contract)

/-- Every socket of the block holds one of the references or nothing. -/
structure Held (refs : ρ → Prop) (b : Block ρ) : Prop where
  value? {socket : String} {r : ρ} : b.value? socket = some r → refs r
  head? {socket : String} {r : ρ} : b.head? socket = some r → refs r

/-- Besides, the author's words in the block are of the style. -/
structure Serves (refs : ρ → Prop) (b : Block ρ) : Prop extends Held refs b where
  words (s : String) : b.Says s → k.style.word s

/-- A way of compiling single blocks that keeps the contract on some references. -/
structure Generators (refs : ρ → Prop) (g : Generator ρ) : Prop where
  serves {r : ρ} : refs r → k.Serves refs (g.diagram.block r)
  stack {r : ρ} : refs r → k.Answers (fun rs => ∀ r ∈ rs, refs r) (g.diagram.stack (some r))
  expression {r : ρ} : refs r → k.Runs (fun e => k.style.Accepts e.text) (g.expression r)
  statement {r : ρ} : refs r → k.Runs k.style.Accepts (g.statement r)

/-- A machine whose texts are of the style and whose declarations are allowed. -/
structure Suits (p : Program) : Prop extends p.Styled k.style where
  definitions : ∀ e ∈ p.definitions, k.Declares e

variable {k}

theorem Serves.fieldText {refs : ρ → Prop} {b : Block ρ} (h : k.Serves refs b) (name : String) :
    k.Answers k.style.word (b.fieldText name) := by
  have hx := Answers.fieldText (k := k) b name
  generalize b.fieldText name = x at hx ⊢
  cases hx with
  | ok hs => exact .ok (h.words _ hs)
  | error hf => exact .error hf

theorem Serves.fieldTextD {refs : ρ → Prop} {b : Block ρ} (h : k.Serves refs b) (name : String) :
    k.style.word (b.fieldTextD name "") :=
  h.words _ (b.says_fieldTextD name)

namespace Generators

variable {refs : ρ → Prop} {g : Generator ρ} {b : Block ρ}

theorem value (h : k.Generators refs g) {child : Option ρ} (hc : ∀ r, child = some r → refs r)
    {default : String} (hd : Fixed [] [] default) (context : Order) :
    k.Runs (fun e => k.style.Accepts e.text) (g.value child context default) := by
  cases child with
  | none => exact .pure (.fixed hd)
  | some r => exact (h.expression (hc r rfl)).bind fun e he => .pure (he.within context)

theorem expand (h : k.Generators refs g) (hb : k.Serves refs b) {before after : List Char}
    {parts : List Part} (hp : k.Leads before after parts) :
    k.Runs (k.style.leads before after) (g.expand b parts) := by
  induction hp with
  | nil => exact .pure (k.style.frame (k.style.fixed (by decide)) _)
  | text hs _ ih => exact ih.bind fun _ ht => .pure (k.style.append hs ht)
  | slot hd _ ih =>
    refine (h.value (fun r hr => hb.value? hr) hd _).bind fun e he => ?_
    exact ih.bind fun _ ht => .pure (k.style.append (k.style.frame he _) ht)
  | fail hf => exact .fail hf

theorem fill (h : k.Generators refs g) (hb : k.Serves refs b) {t : Template} (ht : k.Fits t) :
    k.Runs (fun e => k.style.Accepts e.text) (g.fill b t) := by
  have he : k.Runs (fun e : Expression => k.style.Accepts e.text)
      (g.expand b t.parts >>= fun s => pure ⟨s, t.order⟩) :=
    (h.expand hb ht.parts).bind fun s hs => .pure hs
  rw [Generator.fill]
  cases hr : t.reserves with
  | none => exact he
  | some entry =>
    obtain ⟨name, text⟩ := entry
    exact (Runs.reserve (ht.reserves _ hr) name).bind fun _ _ => he

theorem stackOption (h : k.Generators refs g) {top : Option ρ} (ht : ∀ r, top = some r → refs r) :
    k.Answers (fun rs => ∀ r ∈ rs, refs r) (g.diagram.stack top) := by
  cases top with
  | none => exact .ok nofun
  | some r => exact h.stack (ht r rfl)

theorem fragments (h : k.Generators refs g) {top : Option ρ} (ht : ∀ r, top = some r → refs r) :
    k.Runs (fun ss => ∀ s ∈ ss, k.style.Accepts s) (g.fragments top) :=
  (Runs.lift (h.stackOption ht)).bind fun _ hs => .mapM fun r hr => h.statement (hs r hr)

theorem sequence (h : k.Generators refs g) {top : Option ρ} (ht : ∀ r, top = some r → refs r) :
    k.Runs k.style.Accepts (g.sequence top) := by
  refine (h.fragments ht).bind fun ss hs => .pure (.join ?_)
  intro s hm
  obtain ⟨t, ht, rfl⟩ := List.mem_map.1 hm
  exact (hs t (List.mem_filter.1 ht).1).closeScope

theorem collect (h : k.Generators refs g) {top : Option ρ} (ht : ∀ r, top = some r → refs r)
    {P : α → Prop} {build : Block ρ → Compile ρ α}
    (hp : ∀ {b}, k.Serves refs b → k.Runs P (build b)) :
    k.Runs (fun xs => ∀ x ∈ xs, P x) (g.collect top build) :=
  (Runs.lift (h.stackOption ht)).bind fun _ hs => .mapM fun r hr =>
    (hp (h.serves (hs r hr))).visiting

theorem localTransition (h : k.Generators refs g) (hb : k.Serves refs b) :
    k.Runs (·.Styled k.style) (g.localTransition b) := by
  rw [Generator.localTransition]
  split
  · exact .fail (k.rule _)
  · refine (Runs.lift (hb.fieldText "TARGET")).bind fun target ht => ?_
    refine (h.value (fun r hr => hb.value? hr) (by decide) _).bind fun _ hc => ?_
    exact .pure ⟨ht, hc, k.style.silent⟩

theorem steps (h : k.Generators refs g) (site : Site) {rs : List ρ} (hr : ∀ r ∈ rs, refs r) :
    k.Runs (fun x => (∀ s ∈ x.1, k.style.Accepts s) ∧ k.style.Accepts x.2)
      (StatementRule.steps g site rs) := by
  induction rs with
  | nil => exact .pure ⟨nofun, .fixed (by decide)⟩
  | cons r rs ih =>
    obtain ⟨hr, hrs⟩ := List.forall_mem_cons.1 hr
    rw [StatementRule.steps]
    refine (h.statement hr).bind fun fragment hf => ?_
    split
    · have hx : k.Runs (fun x => (∀ s ∈ x.1, k.style.Accepts s) ∧ k.style.Accepts x.2)
          (pure ([], fragment) : Compile ρ (List String × String)) := .pure ⟨nofun, hf⟩
      split
      · exact (Runs.log _).bind fun _ _ => hx
      · exact hx
    · refine (ih hrs).bind fun x hx => .pure ⟨?_, hx.2⟩
      split
      · exact hx.1
      · exact List.forall_mem_cons.2 ⟨hf.awaited, hx.1⟩

theorem actionSequence (h : k.Generators refs g) (hb : k.Serves refs b) :
    k.Runs k.style.Accepts (StatementRule.actionSequence.run g b) := by
  refine (Runs.lift (h.stackOption fun r hr => hb.head? hr)).bind fun rs hr => ?_
  refine (h.steps b.site hr).bind fun x hx => .pure ?_
  split
  · exact hx.2
  · have hl := (Accepts.join hx.1).indented
    exact (hl.enclose (a := ['\x7d', ')']) (k.style.fixed (by decide)) (by decide)).append hx.2

theorem branch (h : k.Generators refs g) (hb : k.Serves refs b) (i : Nat) :
    k.Runs k.style.Accepts (StatementRule.branch g b i) := by
  refine (h.value (fun r hr => hb.value? hr) (by decide) _).bind fun condition hc => ?_
  refine (h.sequence fun r hr => hb.head? hr).bind fun body hs => .pure ?_
  have hl : k.style.leads [] ['\x7d'] ("if (" ++ condition.text ++ ") \x7b\n") :=
    k.style.append (k.style.append (k.style.fixed (by decide)) (k.style.frame hc [')']))
      (k.style.fixed (by decide))
  exact hs.indented.enclose hl (by decide)

theorem branches (h : k.Generators refs g) (hb : k.Serves refs b)
    (hi : k.Answers (fun _ => True) (StatementRule.branchIndices b)) :
    k.Runs k.style.Accepts (StatementRule.branches.run g b) := by
  refine (Runs.lift hi).bind fun is _ => ?_
  refine (Runs.mapM fun i _ => h.branch hb i).bind fun cases hc => ?_
  have hcode : k.style.Accepts (" else ".intercalate cases) := .intercalate (by decide) hc
  split
  · refine (h.sequence fun r hr => hb.head? hr).bind fun body hs => .pure ?_
    have hl : k.style.leads [] ['\x7d'] (" else ".intercalate cases ++ " else \x7b\n") :=
      k.style.append hcode (k.style.fixed (by decide))
    exact hs.indented.enclose hl (by decide)
  · exact .pure (hcode.before (by decide))

theorem scope (h : k.Generators refs g) (hb : k.Serves refs b) :
    k.Runs k.style.Accepts (StatementRule.scope.run g b) := by
  refine (h.sequence fun r hr => hb.head? hr).bind fun declared hd => ?_
  refine (h.sequence fun r hr => hb.head? hr).bind fun body hs => .pure ?_
  split
  · exact .fixed (by decide)
  · exact (hd.append hs).indented.enclose (a := ['\x7d']) (k.style.fixed (by decide)) (by decide)

/-- Statements of the table keep the contract, whatever their rule. -/
theorem run (h : k.Generators refs g) (hb : k.Serves refs b) {rule : StatementRule}
    (hn : rule.IsNested)
    (hi : rule = .branches → k.Answers (fun _ => True) (StatementRule.branchIndices b))
    (hd : rule = .defineFunction → ∀ name, k.declaration (StatementRule.functionText b name)) :
    k.Runs k.style.Accepts (rule.run g b) := by
  have hf (name : String) : k.Runs k.style.word (lift (b.fieldText name) : Compile ρ String) :=
    .lift (hb.fieldText name)
  have hv (socket : String) (context : Order) {default : String} (hd : Fixed [] [] default) :=
    h.value (fun r (hr : b.value? socket = some r) => hb.value? hr) hd context
  cases rule with
  | inline parts => exact h.expand hb (hn k)
  | actionSequence => exact h.actionSequence hb
  | setMemory =>
    refine (hf "KEY").bind fun key hk => (hv "VALUE" _ (by decide)).bind fun value he => .pure ?_
    have hl : k.style.leads [] ['\x7d', ')'] ("api.updateMemory(\x7b [" ++ quoted key ++ "]: ") :=
      k.style.append (k.style.append (b := [']', '\x7d', ')']) (k.style.fixed (by decide))
        (k.style.frame (k.style.quoted hk) _)) (k.style.fixed (by decide))
    exact he.enclose hl (by decide)
  | branches => exact h.branches hb (hi rfl)
  | scope => exact h.scope hb
  | declareVariable =>
    refine (hf "VAR_NAME").bind fun name _ => ?_
    refine (hv "INITIAL_VALUE" _ (by decide)).bind fun value he => .pure ?_
    have hl : Fixed [] [] ("let " ++ identifier name ++ " = ") :=
      .append (.append (by decide) (.identifier name)) (by decide)
    exact (Accepts.behind hl he).before (by decide)
  | setVariable =>
    refine (hf "VAR_NAME").bind fun name _ => ?_
    refine (hv "VALUE" _ (by decide)).bind fun value he => .pure ?_
    have hl : Fixed [] [] (identifier name ++ " = ") := .append (.identifier name) (by decide)
    exact (Accepts.behind hl he).before (by decide)
  | returnState =>
    refine (hf "STATE_NAME").bind fun name hs => .pure ?_
    have hq : k.style.Accepts (quoted name) := k.style.quoted hs
    exact (Accepts.behind (by decide) hq).before (by decide)
  | defineConstant =>
    refine (hf "NAME").bind fun name _ => (hv "VALUE" _ (by decide)).bind fun value he => ?_
    have hl : Fixed [] [] ("const " ++ identifier name ++ " = ") :=
      .append (.append (by decide) (.identifier name)) (by decide)
    have hs := k.accepted ((Accepts.behind hl he).before (r := ";") (by decide))
    exact (Runs.register hs name).bind fun _ _ => .pure (.fixed (by decide))
  | defineFunction =>
    refine (hf "NAME").bind fun name _ => ?_
    exact (Runs.register (hd rfl name) name).bind fun _ _ => .pure (.fixed (by decide))
  | transition =>
    exact (h.localTransition hb).bind fun t ht => .pure (ht.script.before (by decide))

theorem wrappedName (h : k.Generators refs g) (hb : k.Serves refs b) :
    k.Answers k.style.word (g.diagram.wrappedName b) := by
  rw [Diagram.wrappedName]
  split
  · exact .ok k.style.silent
  · rename_i r hr
    have hs := h.serves (hb.value? hr)
    dsimp only
    split
    · exact hs.fieldText _
    · split
      · exact .ok (hs.fieldTextD _)
      · exact .error (k.rule _)

theorem interruption (h : k.Generators refs g) (hb : k.Serves refs b) :
    k.Answers k.style.word (g.diagram.interruption b) := by
  rw [Diagram.interruption]
  split
  · exact hb.fieldText _
  · split
    · exact h.wrappedName hb
    · exact .error (k.rule _)

theorem interruptibleBy (h : k.Generators refs g) (hb : k.Serves refs b) :
    k.Answers (fun names => ∀ ns ∈ names, ∀ name ∈ ns, k.style.word name)
      (g.diagram.interruptibleBy b) := by
  refine (h.stackOption fun r hr => hb.head? hr).bind fun rs hrs => ?_
  refine (Answers.mapM fun r hr => h.interruption (h.serves (hrs r hr))).bind fun names hn => .ok ?_
  split
  · nofun
  · rintro _ ⟨⟩
    exact hn

theorem state (h : k.Generators refs g) (hb : k.Serves refs b) :
    k.Runs (·.Styled k.style) (g.state b) := by
  rw [Generator.state, Watch.state]
  split
  · exact .fail (k.rule _)
  · refine (Runs.lift (hb.fieldText "STATE_NAME")).bind fun name hn => ?_
    refine (Runs.log _).bind fun _ _ => ?_
    refine (h.sequence fun r hr => hb.head? hr).bind fun onEnter henter => ?_
    refine (h.sequence fun r hr => hb.head? hr).bind fun onExecute hexecute => ?_
    refine (h.sequence fun r hr => hb.head? hr).bind fun onExit hexit => ?_
    refine (h.collect (fun r hr => hb.head? hr) h.localTransition).bind fun ts ht => ?_
    refine (Runs.lift (h.interruptibleBy hb)).bind fun names hi => ?_
    exact .pure ⟨hn, henter, hexecute, hexit, ht, hi⟩

theorem globalBlock (h : k.Generators refs g) {r : ρ} (hr : refs r) :
    k.Runs (·.Styled k.style) (g.globalBlock r) := by
  rw [Generator.globalBlock]
  cases Generator.globalTier? (g.diagram.block r).kind with
  | none => exact .fail (k.rule _)
  | some tier =>
    have hb := h.serves hr
    refine (Runs.lift (hb.fieldText "TARGET")).bind fun _ ht => ?_
    refine (h.value (fun r' hr' => hb.value? hr') (by decide) _).bind fun _ hc => ?_
    exact .pure ⟨ht, hc, hb.fieldTextD _⟩

theorem preamble (h : k.Generators refs g) {tops : List ρ} (ht : ∀ r ∈ tops, refs r) :
    k.Runs (fun _ => True) (g.preamble tops) := by
  induction tops with
  | nil => exact .pure trivial
  | cons top tops ih =>
    obtain ⟨htop, htops⟩ := List.forall_mem_cons.1 ht
    refine (Runs.lift (h.stack htop)).bind fun rs hr => ?_
    refine (Runs.forM fun r hm => ?_).bind fun _ _ => ih htops
    rw [Generator.preambleBlock]
    split
    · exact (h.statement (hr r hm)).bind fun _ _ => .pure trivial
    · exact .log _

theorem statesFrom (h : k.Generators refs g) {states : Table State}
    (hs : ∀ e ∈ states, k.style.word e.1 ∧ e.2.Styled k.style) {rs : List ρ}
    (hr : ∀ r ∈ rs, refs r) :
    k.Runs (fun states => ∀ e ∈ states, k.style.word e.1 ∧ e.2.Styled k.style)
      (g.statesFrom states rs) := by
  induction rs generalizing states with
  | nil => exact .pure hs
  | cons r rs ih =>
    obtain ⟨hr, hrs⟩ := List.forall_mem_cons.1 hr
    refine (h.state (h.serves hr)).bind fun state hstate => ?_
    have hput : ∀ e ∈ Table.put states state.name state,
        k.style.word e.1 ∧ e.2.Styled k.style := by
      intro e he
      rcases Table.mem_put he with rfl | he
      · exact ⟨hstate.name, hstate⟩
      · exact hs e he
    split
    · exact (Runs.log _).bind fun _ _ => ih hput hrs
    · exact ih hput hrs

theorem program (h : k.Generators refs g) {root : ρ} (hr : refs root) {beside : List ρ}
    (hb : ∀ r ∈ beside, refs r) : k.Finishes k.Suits (g.program root beside) := by
  have hh := h.serves hr
  have hn : ∀ e ∈ ([] : Table State), k.style.word e.1 ∧ e.2.Styled k.style :=
    List.forall_mem_nil _
  rw [Generator.program, Watch.program]
  split
  · exact fun _ _ => .error (k.rule _)
  · refine (h.preamble hb).finishes_bind fun _ _ => ?_
    refine (Runs.lift (hh.fieldText "INITIAL_STATE")).finishes_bind fun initialState hi => ?_
    refine (Runs.lift (h.stackOption fun r hr => hh.head? hr)).finishes_bind fun rs hrs => ?_
    refine (h.statesFrom hn hrs).finishes_bind fun states hs => ?_
    refine (Runs.lift (h.stackOption fun r hr => hh.head? hr)).finishes_bind fun rs hrs => ?_
    refine (Runs.mapM fun r hm => h.globalBlock (hrs r hm)).finishes_bind fun ts ht => ?_
    refine .drain fun definitions hd c => .ok ?_ trivial
    exact ⟨⟨hi, hs, fun t hm => ht t (List.mem_filter.1 hm).1, fun t hm =>
      ht t (List.mem_filter.1 hm).1⟩, hd⟩

end Generators

/-- The references that come up in a diagram when so many levels of nesting are left. The contract
allows every fault that a block among them gives by itself. -/
structure Covers (k : Contract) (d : Diagram ρ) (refs : Nat → ρ → Prop) : Prop where
  mono {n : Nat} {r : ρ} : refs n r → refs (n + 1) r
  serves {n : Nat} {r : ρ} : refs (n + 1) r → k.Serves (refs n) (d.block r)
  stack {n : Nat} {r : ρ} : refs n r →
    k.Answers (fun rs => ∀ r ∈ rs, refs n r) (d.stack (some r))
  tooDeep {r : ρ} : refs 0 r → k.fault (.defect .tooDeep)
  template {n : Nat} {r : ρ} {rule : ValueRule} {f : Fault} : refs n r →
    ValueRule.ofKind? (d.block r).kind = some rule → rule.template (d.block r) = .error f →
    k.fault f
  branches {n : Nat} {r : ρ} {f : Fault} : refs n r →
    StatementRule.ofKind? (d.block r).kind = some .branches →
    StatementRule.branchIndices (d.block r) = .error f → k.fault f
  function {n : Nat} {r : ρ} : refs n r →
    StatementRule.ofKind? (d.block r).kind = some .defineFunction → ∀ name,
    k.declaration (StatementRule.functionText (d.block r) name)

namespace Covers

variable {d : Diagram ρ} {refs : Nat → ρ → Prop}

theorem expression_succ (h : k.Covers d refs) {n : Nat}
    (hg : k.Generators (refs n) (.ofDepth d n)) {r : ρ} (hr : refs (n + 1) r) :
    k.Runs (fun e => k.style.Accepts e.text) ((Generator.ofDepth d (n + 1)).expression r) := by
  rw [Generator.expression_succ]
  cases hk : ValueRule.ofKind? (d.block r).kind with
  | none => exact .fail (k.rule _)
  | some rule =>
    have ht : k.Answers k.Fits (rule.template (d.block r)) := by
      cases ht : rule.template (d.block r) with
      | ok t =>
        exact .ok
          (ValueRule.fits_template (ValueRule.isNested_ofKind? hk) (h.serves hr).words ht)
      | error f => exact .error (h.template hr hk ht)
    exact ((Runs.lift ht).bind fun t ht => hg.fill (h.serves hr) ht).visiting

theorem statement_succ (h : k.Covers d refs) {n : Nat}
    (hg : k.Generators (refs n) (.ofDepth d n)) {r : ρ} (hr : refs (n + 1) r) :
    k.Runs k.style.Accepts ((Generator.ofDepth d (n + 1)).statement r) := by
  rw [Generator.statement_succ]
  cases hk : StatementRule.ofKind? (d.block r).kind with
  | none => exact .fail (k.rule _)
  | some rule =>
    refine (hg.run (h.serves hr) (StatementRule.isNested_ofKind? hk) ?_ ?_).visiting
    · rintro rfl
      cases hi : StatementRule.branchIndices (d.block r) with
      | ok is => exact .ok trivial
      | error f => exact .error (h.branches hr hk hi)
    · rintro rfl
      exact h.function hr hk

theorem ofDepth (h : k.Covers d refs) (n : Nat) : k.Generators (refs n) (.ofDepth d n) := by
  have hh (n : Nat) {r : ρ} (hr : refs n r) :
      k.Serves (refs n) ((Generator.ofDepth d n).diagram.block r) := by
    rw [Generator.diagram_ofDepth]
    exact h.serves (h.mono hr)
  have hs (n : Nat) {r : ρ} (hr : refs n r) :
      k.Answers (fun rs => ∀ r ∈ rs, refs n r)
        ((Generator.ofDepth d n).diagram.stack (some r)) := by
    rw [Generator.diagram_ofDepth]
    exact h.stack hr
  induction n with
  | zero => exact ⟨hh 0, hs 0, fun hr => .fail (h.tooDeep hr), fun hr => .fail (h.tooDeep hr)⟩
  | succ n ih => exact ⟨hh (n + 1), hs (n + 1), h.expression_succ ih, h.statement_succ ih⟩

theorem root {tops : List ρ} {P : ρ → Prop} (ht : ∀ r ∈ tops, P r) :
    k.Answers P (d.root tops) := by
  rw [Diagram.root]
  have hm : ∀ r ∈ tops.filter d.isRoot, P r := fun r hr => ht r (List.mem_filter.1 hr).1
  split
  · exact .error (k.reported rfl)
  · rename_i r he
    exact .ok (hm r (he ▸ List.mem_cons_self))
  · exact .error (k.reported rfl)

theorem compileAll (h : k.Covers d refs) {tops : List ρ}
    (ht : ∀ r ∈ tops, refs (d.bound + 1) r) : k.Answers k.Suits (d.compileAll tops).result := by
  have hr := root (k := k) (d := d) ht
  rw [Diagram.compileAll]
  generalize d.root tops = x at hr ⊢
  cases hr with
  | ok hr =>
    exact ((h.ofDepth _).program hr fun r hm => ht r (List.mem_filter.1 hm).1).start
  | error hf => exact .error hf

end Covers

end Contract

end BlockMachine

import BlockMachine.Proofs.Block.Sketch
import BlockMachine.Proofs.Compiler.Coupling
import BlockMachine.Proofs.Compiler.Deeds
import BlockMachine.Proofs.Compiler.Faults
import BlockMachine.Proofs.Compiler.Nesting
import BlockMachine.Proofs.Compiler.Schedule

namespace BlockMachine

def Tree.expression (t : Tree) : Except Fault Expression :=
  ((diagram [t]).generator.expression t).start.result

/-- The text that a definition of a constant assigns to it. -/
def Tree.assigned (t : Tree) : String :=
  match t.block.value? "VALUE" with
  | none => "undefined"
  | some u =>
    match u.expression with
    | .ok e => (e.within .assignment).text
    | .error _ => "undefined"

namespace Position

/-- The name that an author gives to a definition, or uses one by. -/
def name (p : Position) : String := p.tree.block.fieldTextD "NAME" ""

def usedConstant? (p : Position) : Option String :=
  if p.place = .value ∧ p.tree.block.kind = "custom_constant_get" then some (identifier p.name)
  else none

/-- The constant or the function that is defined. -/
def defined? (p : Position) : Option String :=
  if p.place = .statement ∧ p.tree.block.kind ∈ Catalog.definitionKinds then
    some (identifier p.name)
  else none

/-- The declaration of a name. A constant that is only used has no value. -/
def declaration (p : Position) : String :=
  if p.tree.block.kind = "custom_function_define" then
    StatementRule.functionText p.tree.block p.name
  else if p.tree.block.kind = "custom_constant_define" then
    "const " ++ identifier p.name ++ " = " ++ p.tree.assigned ++ ";"
  else "const " ++ identifier p.name ++ " = undefined;"

/-- What is done to the table once a position is finished. -/
def deed? (p : Position) : Option Deed :=
  if p.usedConstant?.isSome then some (.reserve p.name p.declaration)
  else if p.defined?.isSome then some (.register p.name p.declaration)
  else none

/-- What is done to the table from some positions on. -/
def deeds (ps : List Position) : List Deed := (ps.flatMap finished).filterMap deed?

theorem deeds_append (ps qs : List Position) : deeds (ps ++ qs) = deeds ps ++ deeds qs := by
  rw [deeds, List.flatMap_append, List.filterMap_append]
  rfl

theorem deeds_cons (p : Position) (ps : List Position) : deeds (p :: ps) = deeds [p] ++ deeds ps :=
  deeds_append [p] ps

theorem deeds_singleton (p : Position) : deeds [p] = deeds p.parts ++ p.deed?.toList := by
  have hd : [p].filterMap deed? = p.deed?.toList := by
    cases h : p.deed? <;> simp [h]
  rw [deeds, List.flatMap_singleton, finished_eq, List.filterMap_append, hd]
  rfl

theorem deeds_flatMap {α : Type} (xs : List α) (f : α → List Position) :
    deeds (xs.flatMap f) = xs.flatMap fun a => deeds (f a) := by
  induction xs with
  | nil => rfl
  | cons a xs ih => rw [List.flatMap_cons, List.flatMap_cons, deeds_append, ih]

theorem deeds_map {α : Type} (xs : List α) (f : α → Position) :
    deeds (xs.map f) = xs.flatMap fun a => deeds [f a] := by
  rw [← deeds_flatMap, List.map_eq_flatMap]

end Position

open Position (deeds deeds_append deeds_cons deeds_singleton deeds_flatMap deeds_map)

section

variable {fields sockets : List String} {bodies : List (String × Place)} {place : Place} {t : Tree}

theorem Plain.parts (h : Plain t.block.kind fields sockets bodies)
    (hm : t.block.kind ∈ place.kinds) :
    (⟨place, t⟩ : Position).parts =
      sockets.flatMap (t.inSocket (place.inner t.block.site)) ++ bodies.flatMap t.inStack := by
  have hn : ¬ (place = .statement ∧ t.block.kind = "controls_if") :=
    fun hc => h.ne (by decide) hc.2
  rw [Position.parts, if_neg hn, Position.reads_of_placed hm, h.readValues, h.readStacks]

theorem Position.deed?_eq_none (hu : place = .value → t.block.kind ≠ "custom_constant_get")
    (hd : place = .statement → t.block.kind ∉ Catalog.definitionKinds) :
    (⟨place, t⟩ : Position).deed? = none := by
  have hu : (⟨place, t⟩ : Position).usedConstant? = none := if_neg fun h => hu h.1 h.2
  have hd : (⟨place, t⟩ : Position).defined? = none := if_neg fun h => hd h.1 h.2
  rw [deed?, hu, hd]
  rfl

theorem Position.deed?_of_use (hk : t.block.kind = "custom_constant_get") :
    (⟨.value, t⟩ : Position).deed? =
      some (.reserve (t.block.fieldTextD "NAME" "")
        ("const " ++ identifier (t.block.fieldTextD "NAME" "") ++ " = undefined;")) := by
  simp [deed?, usedConstant?, declaration, name, hk]

theorem Position.deed?_of_constant (hk : t.block.kind = "custom_constant_define") :
    (⟨.statement, t⟩ : Position).deed? =
      some (.register (t.block.fieldTextD "NAME" "")
        ("const " ++ identifier (t.block.fieldTextD "NAME" "") ++ " = " ++ t.assigned ++ ";")) := by
  simp [deed?, usedConstant?, defined?, declaration, name, hk, Catalog.definitionKinds]

theorem Position.deed?_of_function (hk : t.block.kind = "custom_function_define") :
    (⟨.statement, t⟩ : Position).deed? =
      some (.register (t.block.fieldTextD "NAME" "")
        (StatementRule.functionText t.block (t.block.fieldTextD "NAME" ""))) := by
  simp [deed?, usedConstant?, defined?, declaration, name, hk, Catalog.definitionKinds]

theorem Position.parts_of_template {rule : ValueRule} {template : Template}
    (hk : ValueRule.ofKind? t.block.kind = some rule) (hr : rule.template t.block = .ok template) :
    (⟨.value, t⟩ : Position).parts = (slots template.parts).flatMap (t.inSocket .value) := by
  have hm : t.block.kind ∈ Place.value.kinds := List.mem_map_of_mem (Table.mem_of_get? hk)
  have hs := ValueRule.suits_ofKind? hk
  have hb : t.block.readStacks = [] := by
    rw [Block.readStacks, if_neg hs.branchless, hs.stackless]
  have hc : ¬ (Place.value = .statement ∧ t.block.kind = "controls_if") := by simp
  rw [parts, if_neg hc, reads_of_placed hm, hb, (ValueRule.template_renders hk hr).sockets]
  exact List.append_nil _

end

namespace Room

variable {ts us : List Tree} {n k k' : Nat} {t u : Tree}

theorem links (h : Room ts (n + 1) t) (hl : t.block.Links u) : Room ts n u := by
  have hs := Tree.size_lt_of_links hl
  obtain ⟨hd, hb⟩ := h
  exact ⟨by omega, by omega⟩

theorem generator (h : t ∈ ts) : Room ts ((Tree.diagram ts).bound + 1) t :=
  ⟨Nat.le_succ_of_le (Tree.size_le_bound h), Tree.size_le_bound h⟩

variable (ts us) in
/-- Trees that have room in two diagrams, each at a depth of its own. -/
def coupling : Coupling Tree Tree where
  left := Tree.diagram ts
  right := Tree.diagram us
  watch := .idle
  image := id
  valid k k' _ t := Room ts k t ∧ Room us k' t
  block t := (Block.map_id _).symm
  positive h := ⟨Nat.lt_of_lt_of_le (Tree.size_pos _) h.1.depth,
    Nat.lt_of_lt_of_le (Tree.size_pos _) h.2.depth⟩
  succ h := ⟨h.1.succ, h.2.succ⟩
  beside h hl := ⟨h.1.succ.links hl, h.2.succ.links hl⟩
  inside h _ hl := ⟨h.1.links hl, h.2.links hl⟩
  allows _ _ := rfl
  seen _ := by rw [Tree.seen_diagram, Tree.seen_diagram]
  stack {_ _ _ t} h := by
    have hl := Tree.stack_eq fun u (hu : some t = some u) => Option.some.inj hu ▸ h.1.bound
    have hr := Tree.stack_eq fun u (hu : some t = some u) => Option.some.inj hu ▸ h.2.bound
    rw [hl, id, hr, List.map_id_fun]
    rfl
  shallow {_ _ _ t} h := by
    have hl := Tree.stack_eq fun u (hu : some t = some u) => Option.some.inj hu ▸ h.1.bound
    rw [hl]
    nofun

theorem expression_eq (h : Room ts k t) (h' : Room us k' t) :
    (Generator.ofDepth (Tree.diagram ts) k).expression t =
      (Generator.ofDepth (Tree.diagram us) k').expression t := by
  have hr (rs : List Tree) : ((coupling ts us).matching k k' rs).Runs Eq
      ((Generator.ofDepth (Tree.diagram ts) k).expression t)
      ((Generator.ofDepth (Tree.diagram us) k').expression t) := by
    exact ((coupling ts us).generators k k' rs).expression ⟨rfl, h, h'⟩
  exact Coupling.eq_of_runs rfl hr

theorem result_expression (h : Room ts k t) :
    ((Generator.ofDepth (Tree.diagram ts) k).expression t).start.result = t.expression := by
  rw [h.expression_eq (generator (List.mem_singleton_self t))]
  rfl

end Room

/-- A way of compiling single blocks of trees that does what the positions are to do. -/
structure Recorder (ts : List Tree) (n : Nat) (g : Generator Tree) : Prop where
  diagram : g.diagram = Tree.diagram ts
  expression {t : Tree} : Room ts n t → (g.expression t).Does (deeds [⟨.value, t⟩])
  result {t : Tree} : Room ts n t → (g.expression t).start.result = t.expression
  statement {t : Tree} : Room ts n t → (g.statement t).Does (deeds [⟨.statement, t⟩])

namespace Recorder

variable {ts : List Tree} {n : Nat} {g : Generator Tree} {t : Tree}

theorem block (h : Recorder ts n g) (t : Tree) : g.diagram.block t = t.block := by
  rw [h.diagram]
  rfl

theorem stack (h : Recorder ts n g) {top : Option Tree} (ht : ∀ t, top = some t → Room ts n t) :
    g.diagram.stack top = .ok (Tree.stackedOption top) := by
  rw [h.diagram]
  exact Tree.stack_eq fun t he => (ht t he).bound

theorem value (h : Recorder ts n g) (hb : Contract.Held (Room ts n) t.block)
    (socket : String) (context : Order) (default : String) :
    (g.value (t.block.value? socket) context default).Does (deeds (t.inSocket .value socket)) := by
  rw [Tree.inSocket]
  cases hc : t.block.value? socket with
  | none => exact .pure _
  | some u => exact (h.expression (hb.value? hc)).map _

theorem assigned (h : Recorder ts n g) (hb : Contract.Held (Room ts n) t.block) {e : Expression}
    (he : (g.value (t.block.value? "VALUE") .assignment "undefined").start.result = .ok e) :
    e.text = t.assigned := by
  rw [Tree.assigned]
  cases hc : t.block.value? "VALUE" with
  | none =>
    rw [hc] at he
    cases he
    rfl
  | some u =>
    have hu := hb.value? hc
    rw [hc] at he
    change (g.expression u >>= fun e => pure (e.within .assignment)).start.result = _ at he
    rw [(h.expression hu).start_bind fun _ _ => .pure _, h.result hu] at he
    dsimp only
    cases hx : u.expression with
    | error f =>
      rw [hx] at he
      cases he
    | ok x =>
      rw [hx] at he
      cases he
      rfl

theorem expand (h : Recorder ts n g) (hb : Contract.Held (Room ts n) t.block) (parts : List Part) :
    (g.expand t.block parts).Does (deeds ((slots parts).flatMap (t.inSocket .value))) := by
  induction parts with
  | nil => exact .pure _
  | cons part parts ih =>
    cases part with
    | text s => exact ih.map _
    | slot socket context default =>
      change Compile.Does _ (deeds (t.inSocket .value socket ++ _))
      rw [deeds_append]
      exact (h.value hb socket context default).bind fun e _ => ih.map _
    | fail f => exact .fail f

theorem fill (h : Recorder ts n g) (hb : Contract.Held (Room ts n) t.block) (template : Template) :
    (g.fill t.block template).Does (template.reserves.toList.map (fun e => .reserve e.1 e.2) ++
      deeds ((slots template.parts).flatMap (t.inSocket .value))) := by
  have he := (h.expand hb template.parts).map fun s => (⟨s, template.order⟩ : Expression)
  rw [Generator.fill]
  cases template.reserves with
  | none => exact he
  | some entry => exact (Compile.Does.reserve _ _).bind fun _ _ => he

theorem fragments (h : Recorder ts n g) {top : Option Tree}
    (ht : ∀ t, top = some t → Room ts n t) :
    (g.fragments top).Does (deeds ((Tree.stackedOption top).map (⟨.statement, ·⟩))) := by
  rw [Generator.fragments, h.stack ht, deeds_map]
  exact .mapM fun u hu => h.statement (Room.stackedOption ht u hu)

theorem sequence (h : Recorder ts n g) (hb : Contract.Held (Room ts n) t.block)
    (hk : t.block.kind ≠ "action_sequence") (socket : String) :
    (g.sequence (t.block.head? socket)).Does (deeds (t.inStack (socket, .statement))) := by
  rw [Tree.inStack, Tree.readStack_of_ne hk]
  exact (h.fragments fun u hu => hb.head? hu).map _

theorem steps (h : Recorder ts n g) (site : Site) {us : List Tree} (hu : ∀ u ∈ us, Room ts n u) :
    (StatementRule.steps g site us).Does
      (deeds ((Tree.upToReturn us).map (⟨.statement, ·⟩))) := by
  induction us with
  | nil => exact .pure _
  | cons u us ih =>
    obtain ⟨hu, hus⟩ := List.forall_mem_cons.1 hu
    rw [StatementRule.steps, Tree.upToReturn, h.block]
    by_cases hk : u.block.kind = Catalog.returnStateKind
    · simp only [if_pos hk]
      have hl (fragment : String) : (do
          if !us.isEmpty then Compile.log (.skippedAfterReturn us.length site)
          return ([], fragment) : Compile Tree (List String × String)).Does [] := by
        split
        · exact (Compile.Does.log _).after fun _ _ => .pure _
        · exact .pure _
      have hx := (h.statement hu).bind fun s _ => hl s
      rw [List.append_nil] at hx
      exact hx
    · simp only [if_neg hk]
      rw [List.map_cons, deeds_cons]
      exact (h.statement hu).bind fun s _ => (ih hus).map _

theorem actionSequence (h : Recorder ts n g) (hb : Contract.Held (Room ts n) t.block)
    (hk : t.block.kind = "action_sequence") :
    (StatementRule.actionSequence.run g t.block).Does (deeds (t.inStack ("DO", .statement))) := by
  have ht : ∀ u, t.block.head? "DO" = some u → Room ts n u := fun u hu => hb.head? hu
  rw [StatementRule.actionSequence.run, h.stack ht, Tree.inStack, Tree.readStack, if_pos hk]
  exact (h.steps t.block.site (Room.stackedOption ht)).map _

theorem scope (h : Recorder ts n g) (hb : Contract.Held (Room ts n) t.block)
    (hk : t.block.kind ≠ "action_sequence") :
    (StatementRule.scope.run g t.block).Does
      (deeds (t.inStack ("VARIABLES", .statement)) ++ deeds (t.inStack ("BODY", .statement))) :=
  (h.sequence hb hk "VARIABLES").bind fun _ _ => (h.sequence hb hk "BODY").map _

theorem branch (h : Recorder ts n g) (hb : Contract.Held (Room ts n) t.block)
    (hk : t.block.kind ≠ "action_sequence") (i : Nat) :
    (StatementRule.branch g t.block i).Does (deeds (t.inBranch i)) := by
  rw [Tree.inBranch, deeds_append]
  apply (h.value hb _ _ _).bind
  intro condition _
  exact (h.sequence hb hk _).map _

theorem otherwise (h : Recorder ts n g) (hb : Contract.Held (Room ts n) t.block)
    (hk : t.block.kind ≠ "action_sequence") (code : String) :
    (do
      if StatementRule.hasElse t.block then
        let body ← g.sequence (t.block.head? "ELSE")
        return code ++ " else \x7b\n" ++ indented body ++ "\x7d\n"
      else return code ++ "\n" : Compile Tree String).Does
      (deeds (t.inStack ("ELSE", .statement))) := by
  split
  · exact (h.sequence hb hk "ELSE").map _
  · rename_i hn
    rw [Tree.inStack, Tree.readStack_of_ne hk, StatementRule.head?_eq_none_of_not_hasElse hn,
      Tree.stackedOption]
    exact .pure _

theorem branches (h : Recorder ts n g) (hb : Contract.Held (Room ts n) t.block)
    (hk : t.block.kind = "controls_if") :
    (StatementRule.branches.run g t.block).Does (deeds (Position.mk .statement t).parts) := by
  have hs : t.block.kind ≠ "action_sequence" := by
    rw [hk]
    decide
  rw [StatementRule.branches.run]
  cases hi : StatementRule.branchIndices t.block with
  | error e => exact .fail e
  | ok is =>
    rw [Position.parts_of_branches hk hi, deeds_append, deeds_flatMap]
    have hx := Compile.Does.mapM fun i (_ : i ∈ is) => h.branch hb hs i
    exact hx.bind fun cases _ => h.otherwise hb hs _

theorem localTransition (h : Recorder ts n g) (hb : Contract.Held (Room ts n) t.block) :
    (g.localTransition t.block).Does (deeds (t.inSocket .value "CONDITION")) := by
  rw [Generator.localTransition]
  split
  · exact .fail _
  · apply (Compile.Does.lift _).after
    intro target _
    exact (h.value hb "CONDITION" _ _).map _

end Recorder

theorem Compile.start_lift {ρ α : Type} (x : Except Fault α) :
    (lift x : Compile ρ α).start.result = x := by
  cases x <;> rfl

theorem Block.fieldTextD_of_fieldText {ρ : Type} {b : Block ρ} {name text : String}
    (h : b.fieldText name = .ok text) (default : String) : b.fieldTextD name default = text := by
  obtain ⟨v, hv, rfl⟩ := map_eq_ok.1 h
  rw [field] at hv
  split at hv
  · rename_i w hw
    cases hv
    rw [fieldTextD, hw]
    rfl
  · cases hv

namespace ValueRule

variable {ρ : Type} {rule : ValueRule} {b : Block ρ} {template : Template}

theorem kind_of_constant {kind : String} (h : ofKind? kind = some .constant) :
    kind = "custom_constant_get" := by
  have hm := Table.mem_of_get? h
  simpa [table, fixedTable, fixed, negation, conditional, position, positionQuery, orbit,
    moveAndCheck] using hm

theorem ne_constantKind {kind : String} (h : ofKind? kind = some rule) (hr : rule ≠ .constant) :
    kind ≠ "custom_constant_get" := by
  rintro rfl
  exact hr (Option.some.inj (h.symm.trans rfl))

theorem reserves_eq_none (h : rule.template b = .ok template) (hr : rule ≠ .constant) :
    template.reserves = none := by
  cases rule with
  | constant => exact absurd rfl hr
  | inline | boolean | text =>
    cases h
    rfl
  | number | list | gameConstant | property | memory | localVariable | stateName =>
    obtain ⟨_, -, rfl⟩ := map_eq_ok.1 h
    rfl
  | comparison | connective =>
    rw [ValueRule.template] at h
    split at h
    · cases h
      rfl
    · cases h
  | arithmetic =>
    rw [ValueRule.template] at h
    split at h
    · cases h
      rfl
    · split at h
      · cases h
        rfl
      · cases h
  | coordinate =>
    rw [ValueRule.template, coordinateTemplate] at h
    split at h
    · cases h
      rfl
    · cases h
  | functionCall =>
    cases h
    rw [callTemplate]
    cases b.fieldText "NAME" <;> rfl

end ValueRule

namespace StatementRule

variable {kind : String} {rule : StatementRule}

theorem not_mem_definitionKinds (h : ofKind? kind = some rule) (hc : rule ≠ .defineConstant)
    (hf : rule ≠ .defineFunction) : kind ∉ Catalog.definitionKinds := by
  intro hm
  rcases List.mem_cons.1 hm with rfl | hm
  · exact hf (Option.some.inj (h.symm.trans rfl))
  · rw [List.mem_singleton.1 hm] at h
    exact hc (Option.some.inj (h.symm.trans rfl))

end StatementRule

namespace Recorder

variable {ts : List Tree} {n : Nat} {g : Generator Tree} {t : Tree}

theorem deeds_of_rule {rule : StatementRule}
    (hk : StatementRule.ofKind? t.block.kind = some rule)
    (hb : rule.soleKind? ≠ some "controls_if") (hc : rule ≠ .defineConstant)
    (hf : rule ≠ .defineFunction) :
    deeds [⟨.statement, t⟩] =
      deeds (rule.sockets.flatMap (t.inSocket .value)) ++
        deeds (rule.bodies.flatMap t.inStack) := by
  have hp := (StatementRule.suits_ofKind? hk).plain hb
  have hn : (Position.mk .statement t).deed? = none :=
    Position.deed?_eq_none nofun fun _ => StatementRule.not_mem_definitionKinds hk hc hf
  rw [deeds_singleton, hn, hp.parts (StatementRule.kind_mem hk), deeds_append]
  exact List.append_nil _

theorem defineConstant (h : Recorder ts n g) (hb : Contract.Held (Room ts n) t.block)
    (hk : StatementRule.ofKind? t.block.kind = some .defineConstant) :
    (StatementRule.defineConstant.run g t.block).Does (deeds [⟨.statement, t⟩]) := by
  have hs := StatementRule.suits_ofKind? hk
  rw [deeds_singleton, (hs.plain (by decide)).parts (StatementRule.kind_mem hk),
    Position.deed?_of_constant (hs.sole _ rfl)]
  change Compile.Does _ (deeds ((t.inSocket .value "VALUE" ++ []) ++ []) ++ _)
  rw [List.append_nil, List.append_nil]
  apply (Compile.Does.lift _).after
  intro name hn
  rw [Compile.start_lift] at hn
  apply (h.value hb "VALUE" _ _).bind
  intro value hv
  rw [Block.fieldTextD_of_fieldText hn, ← h.assigned hb hv]
  exact (Compile.Does.register name _).map fun _ => ""

theorem defineFunction (hk : StatementRule.ofKind? t.block.kind = some .defineFunction) :
    (StatementRule.defineFunction.run t.block).Does (deeds [⟨.statement, t⟩]) := by
  have hs := StatementRule.suits_ofKind? hk
  rw [deeds_singleton, (hs.plain (by decide)).parts (StatementRule.kind_mem hk),
    Position.deed?_of_function (hs.sole _ rfl)]
  apply (Compile.Does.lift _).after
  intro name hn
  rw [Compile.start_lift] at hn
  rw [Block.fieldTextD_of_fieldText hn]
  exact (Compile.Does.register name _).map fun _ => ""

theorem run (h : Recorder ts n g) (hb : Contract.Held (Room ts n) t.block) {rule : StatementRule}
    (hk : StatementRule.ofKind? t.block.kind = some rule) :
    (rule.run g t.block).Does (deeds [⟨.statement, t⟩]) := by
  have hs := StatementRule.suits_ofKind? hk
  have hd := deeds_of_rule hk
  -- A rule that reads one value, behind a field that it cannot do without.
  have hv (name socket : String) (context : Order) (default : String)
      (script : String → Expression → String) :
      (do
        let text ← Compile.lift (t.block.fieldText name)
        let value ← g.value (t.block.value? socket) context default
        return script text value : Compile Tree String).Does
        (deeds ([socket].flatMap (t.inSocket .value)) ++ deeds []) := by
    rw [List.flatMap_singleton]
    change Compile.Does _ (_ ++ [])
    rw [List.append_nil]
    exact (Compile.Does.lift _).after fun text _ => (h.value hb socket context default).map _
  cases rule with
  | inline parts =>
    rw [hd nofun nofun nofun]
    exact (List.append_nil _).symm ▸ h.expand hb parts
  | actionSequence =>
    rw [hd (by decide) nofun nofun]
    change Compile.Does _ ([] ++ deeds (_ ++ []))
    rw [List.append_nil]
    exact h.actionSequence hb (hs.sole _ rfl)
  | branches =>
    have hk' : t.block.kind = "controls_if" := hs.sole _ rfl
    have hn : (Position.mk .statement t).deed? = none :=
      Position.deed?_eq_none nofun fun _ => StatementRule.not_mem_definitionKinds hk nofun nofun
    rw [deeds_singleton, hn]
    exact (List.append_nil _).symm ▸ h.branches hb hk'
  | scope =>
    have hn : t.block.kind ≠ "action_sequence" := by
      rw [hs.sole _ rfl]
      decide
    rw [hd (by decide) nofun nofun]
    change Compile.Does _ ([] ++ deeds (_ ++ (_ ++ [])))
    rw [List.append_nil, deeds_append]
    exact h.scope hb hn
  | setMemory =>
    rw [hd (by decide) nofun nofun]
    exact hv "KEY" "VALUE" _ _ _
  | declareVariable =>
    rw [hd (by decide) nofun nofun]
    exact hv "VAR_NAME" "INITIAL_VALUE" _ _ _
  | setVariable =>
    rw [hd (by decide) nofun nofun]
    exact hv "VAR_NAME" "VALUE" _ _ _
  | returnState =>
    rw [hd (by decide) nofun nofun]
    exact (Compile.Does.lift _).map _
  | defineConstant => exact h.defineConstant hb hk
  | defineFunction => exact defineFunction hk
  | transition =>
    rw [hd (by decide) nofun nofun]
    change Compile.Does _ (deeds (_ ++ []) ++ [])
    rw [List.append_nil, List.append_nil]
    exact (h.localTransition hb).map _

theorem fill_of_rule (h : Recorder ts n g) (hb : Contract.Held (Room ts n) t.block)
    {rule : ValueRule} {template : Template} (hk : ValueRule.ofKind? t.block.kind = some rule)
    (hr : rule.template t.block = .ok template) :
    (g.fill t.block template).Does (deeds [⟨.value, t⟩]) := by
  have hf := h.fill hb template
  rw [deeds_singleton, Position.parts_of_template hk hr]
  by_cases hc : rule = .constant
  · subst hc
    obtain ⟨name, hn, rfl⟩ := map_eq_ok.1 hr
    rw [Position.deed?_of_use (ValueRule.kind_of_constant hk), Block.fieldTextD_of_fieldText hn]
    exact hf
  · have hn : (Position.mk .value t).deed? = none :=
      Position.deed?_eq_none (fun _ => ValueRule.ne_constantKind hk hc) nofun
    rw [hn]
    rw [ValueRule.reserves_eq_none hr hc] at hf
    exact (List.append_nil _).symm ▸ hf

theorem fill_template (h : Recorder ts n g) (hb : Contract.Held (Room ts n) t.block)
    {rule : ValueRule} (hk : ValueRule.ofKind? t.block.kind = some rule) :
    (Compile.lift (rule.template t.block) >>= g.fill t.block).Does (deeds [⟨.value, t⟩]) := by
  apply (Compile.Does.lift _).after
  intro template hr
  rw [Compile.start_lift] at hr
  exact h.fill_of_rule hb hk hr

theorem expression_succ (h : Recorder ts n (.ofDepth (Tree.diagram ts) n))
    (ht : Room ts (n + 1) t) :
    ((Generator.ofDepth (Tree.diagram ts) (n + 1)).expression t).Does (deeds [⟨.value, t⟩]) := by
  rw [Generator.expression_succ, Tree.block_diagram]
  cases hk : ValueRule.ofKind? t.block.kind with
  | none => exact .fail _
  | some rule => exact (h.fill_template ht.held hk).visiting

theorem statement_succ (h : Recorder ts n (.ofDepth (Tree.diagram ts) n))
    (ht : Room ts (n + 1) t) :
    ((Generator.ofDepth (Tree.diagram ts) (n + 1)).statement t).Does
      (deeds [⟨.statement, t⟩]) := by
  rw [Generator.statement_succ, Tree.block_diagram]
  cases hk : StatementRule.ofKind? t.block.kind with
  | none => exact .fail _
  | some rule => exact (h.run ht.held hk).visiting

theorem ofDepth (ts : List Tree) (n : Nat) : Recorder ts n (.ofDepth (Tree.diagram ts) n) := by
  have hd := Generator.diagram_ofDepth (Tree.diagram ts)
  induction n with
  | zero =>
    have hz {t : Tree} (ht : Room ts 0 t) : False := Nat.not_le.2 t.size_pos ht.depth
    exact ⟨hd 0, fun ht => (hz ht).elim, fun ht => (hz ht).elim, fun ht => (hz ht).elim⟩
  | succ n ih =>
    exact ⟨hd (n + 1), ih.expression_succ, Room.result_expression, ih.statement_succ⟩

end Recorder

end BlockMachine

import BlockMachine.Compiler.Assembly
import BlockMachine.Proofs.Block.Stack
import BlockMachine.Proofs.Compiler.Flaws
import Mathlib.Logic.Relation

namespace BlockMachine

/-- What a block is looked up as. A state name stands in a wrapper. -/
inductive Place where
  | root
  | state
  | localTransition
  | globalTransition
  | interruption
  | stateName (wrapper : Site)
  | value
  | statement
deriving DecidableEq

namespace Place

def kinds : Place → List String
  | .root => [Catalog.rootKind]
  | .state => [Catalog.stateKind]
  | .localTransition => [Catalog.localTransitionKind]
  | .globalTransition => [Catalog.tacticalTransitionKind, Catalog.emergencyTransitionKind]
  | .interruption => [Catalog.stateReferenceKind, Catalog.stateReferenceStatementKind]
  | .stateName _ => [Catalog.stateReferenceKind, Catalog.textKind]
  | .value => Table.keys ValueRule.table
  | .statement => Table.keys StatementRule.table

/-- The fault of a block whose kind has no rule in a place. -/
def misfit : Place → Site → RuleFault
  | .root => .unknownKind .programRoot
  | .state => .unknownKind .state
  | .localTransition => .unknownKind .localTransition
  | .globalTransition => .notGlobal
  | .interruption => .unknownKind .interruption
  | .stateName wrapper => .notAStateName wrapper
  | .value => .unknownKind .value
  | .statement => .unknownKind .statement

/-- The place of a block in a value socket of a block in a place. -/
def inner : Place → Site → Place
  | .interruption, site => .stateName site
  | _, _ => .value

end Place

theorem Generator.globalTier?_eq_none_iff {kind : String} :
    globalTier? kind = none ↔ kind ∉ Place.globalTransition.kinds := by
  have hm : kind ∈ Place.globalTransition.kinds ↔
      kind = Catalog.tacticalTransitionKind ∨ kind = Catalog.emergencyTransitionKind := by
    simp [Place.kinds]
  rw [globalTier?, hm]
  split
  · rename_i ht
    simp [ht]
  · rename_i ht
    split
    · rename_i he
      simp [he]
    · rename_i he
      simp [ht, he]

/-- The fields that a kind cannot do without. -/
def requiredFields : Table (List String) :=
  [("ai_definition", ["INITIAL_STATE"]), ("fsm_state", ["STATE_NAME"]),
    ("fsm_transition", ["TARGET"]), ("fsm_tactical_transition", ["TARGET"]),
    ("fsm_emergency_transition", ["TARGET"]), ("state_reference", ["STATE_NAME"]),
    ("game_constant", ["CONSTANT"]), ("object_get_property", ["PROPERTY"]), ("memory_get", ["KEY"]),
    ("local_get_variable", ["VAR_NAME"]), ("custom_constant_get", ["NAME"]),
    ("custom_function_call", ["NAME"]), ("memory_set", ["KEY"]),
    ("local_declare_variable", ["VAR_NAME"]), ("local_set_variable", ["VAR_NAME"]),
    ("fsm_return_state", ["STATE_NAME"]), ("custom_constant_define", ["NAME"]),
    ("custom_function_define", ["NAME"])]

/-- The value sockets that a kind looks into. Lists and branches have numbered sockets instead. -/
def valueSockets : Table (List String) :=
  [("logic_compare", ["A", "B"]), ("logic_operation", ["A", "B"]), ("math_arithmetic", ["A", "B"]),
    ("logic_negate", ["BOOL"]), ("logic_ternary", ["IF", "THEN", "ELSE"]),
    ("position_create", ["X", "Y"]), ("position_get_coordinate", ["POSITION"]),
    ("object_get_property", ["OBJECT"]), ("api_is_position_valid", ["POSITION"]),
    ("api_is_line_of_sight_clear", ["POSITION"]),
    ("api_get_orbiting_position", ["TARGET_POINT", "DISTANCE", "DIRECTION"]),
    ("actions_move_to_and_check", ["POSITION"]), ("custom_function_call", ["ARGS"]),
    ("api_log", ["MESSAGE"]), ("api_turn", ["DEGREES"]), ("api_strafe", ["DIRECTION"]),
    ("api_move_to", ["POSITION"]), ("memory_set", ["VALUE"]),
    ("local_declare_variable", ["INITIAL_VALUE"]), ("local_set_variable", ["VALUE"]),
    ("custom_constant_define", ["VALUE"]), ("fsm_transition", ["CONDITION"]),
    ("fsm_tactical_transition", ["CONDITION"]), ("fsm_emergency_transition", ["CONDITION"]),
    ("state_reference_statement", ["STATE"])]

/-- The stacks that a kind goes through, and the place of the blocks in them. -/
def stackSockets : Table (List (String × Place)) :=
  [("ai_definition", [("STATES", .state), ("GLOBAL_TRANSITIONS", .globalTransition)]),
    ("fsm_state", [("ON_ENTER", .statement), ("ON_EXECUTE", .statement), ("ON_EXIT", .statement),
      ("TRANSITIONS", .localTransition), ("INTERRUPTIBLE_BY", .interruption)]),
    ("action_sequence", [("DO", .statement)]),
    ("local_scope", [("VARIABLES", .statement), ("BODY", .statement)])]

namespace Block

variable {ρ : Type}

def required (b : Block ρ) : List String := (Table.get? requiredFields b.kind).getD []

def readValues (b : Block ρ) : List String :=
  if b.kind = "lists_create_with" then
    match ValueRule.slotCount b with
    | .ok count => (List.range count).map fun i : Nat => "ADD" ++ decimalText i
    | .error _ => []
  else if b.kind = "controls_if" then
    match StatementRule.branchIndices b with
    | .ok is => is.map fun i : Nat => "IF" ++ decimalText i
    | .error _ => []
  else (Table.get? valueSockets b.kind).getD []

/-- The statement sockets whose stacks are read. -/
def readStacks (b : Block ρ) : List (String × Place) :=
  if b.kind = "controls_if" then
    match StatementRule.branchIndices b with
    | .ok is =>
      is.map (fun i : Nat => ("DO" ++ decimalText i, .statement)) ++ [("ELSE", .statement)]
    | .error _ => []
  else (Table.get? stackSockets b.kind).getD []

inductive UnknownComparison (b : Block ρ) : Fault → Prop
  | mk {name : String} : b.fieldTextD "OP" "EQ" = name →
    name ∉ ["EQ", "NEQ", "LT", "LTE", "GT", "GTE"] →
    UnknownComparison b (.rule (.unknownComparison name b.site))

inductive UnknownConnective (b : Block ρ) : Fault → Prop
  | mk {name : String} : b.fieldTextD "OP" "AND" = name → name ∉ ["AND", "OR"] →
    UnknownConnective b (.rule (.unknownConnective name b.site))

inductive UnknownArithmetic (b : Block ρ) : Fault → Prop
  | mk {name : String} : b.fieldTextD "OP" "ADD" = name →
    name ∉ ["ADD", "MINUS", "MULTIPLY", "DIVIDE", "POWER"] →
    UnknownArithmetic b (.rule (.unknownArithmetic name b.site))

inductive UnknownCoordinate (b : Block ρ) : Fault → Prop
  | mk {name : String} : lowercased (b.fieldTextD "COORDINATE" "X") = name → name ∉ ["x", "y"] →
    UnknownCoordinate b (.rule (.unknownCoordinate name b.site))

/-- A text that is no number, or an integer beyond the range of numbers. -/
inductive InvalidNumber (b : Block ρ) : Fault → Prop
  | numeral {text : String} : b.field? "NUM" = some (.text text) →
    Numeral.ofField? text = none → InvalidNumber b (.rule (.invalidNumber text b.site))
  | range {n : Int} : b.field? "NUM" = some (.int n) → 2 ^ 1024 - 2 ^ 970 ≤ n.natAbs →
    InvalidNumber b (.defect .numberTooLarge)

/-- Numbered sockets that cannot be counted: the extra state gives no natural number, or a name has
more digits than are read. -/
inductive InvalidCount (b : Block ρ) (key : String) (names : List String)
    (digits? : String → Option (List Nat)) : Fault → Prop
  | state {count : Json} : b.state? key = some count → (∀ n : Nat, count ≠ .int n) →
    InvalidCount b key names digits? (.rule (.invalidCount key count b.site))
  | name {name : String} {digits : List Nat} : name ∈ names → digits? name = some digits →
    4300 < digits.length → InvalidCount b key names digits? (.defect .numeralTooLong)

/-- What is checked of the blocks of a kind, beyond their fields. -/
def checks : Table (Block ρ → Fault → Prop) :=
  [("logic_compare", UnknownComparison), ("logic_operation", UnknownConnective),
    ("math_arithmetic", UnknownArithmetic), ("position_get_coordinate", UnknownCoordinate),
    ("math_number", InvalidNumber),
    ("lists_create_with", fun b =>
      b.InvalidCount "itemCount" (Table.keys b.values) (Catalog.socketDigits? "ADD")),
    ("controls_if", fun b => b.InvalidCount "elseIfCount" b.sockets StatementRule.branchDigits?)]

/-- What is wrong with a block that has a rule. -/
inductive Breaks (b : Block ρ) : Fault → Prop
  | field {name : String} : name ∈ b.required → b.field? name = none → Breaks b (b.missing name)
  | check {wrong : Block ρ → Fault → Prop} {f : Fault} :
    Table.get? checks b.kind = some wrong → wrong b f → Breaks b f

/-- What is wrong with a block in a place. -/
inductive Faulty (b : Block ρ) (place : Place) : Fault → Prop
  | misplaced : b.kind ∉ place.kinds → Faulty b place (.rule (place.misfit b.site))
  | broken {f : Fault} : b.kind ∈ place.kinds → b.Breaks f → Faulty b place f

/-- A fault of a single block names that block, if it names any, and is no circle of blocks. -/
def Concerns (b : Block ρ) : Fault → Prop
  | .format _ => False
  | .rule f => f.site = b.site ∧ f ≠ .cycle b.site
  | .defect _ => True

section

variable {b : Block ρ} {place : Place} {f : Fault}

theorem concerns_of_check {kind : String} {wrong : Block ρ → Fault → Prop}
    (hw : Table.get? checks kind = some wrong) (h : wrong b f) : b.Concerns f := by
  have hm := Table.mem_of_get? hw
  simp only [checks, List.mem_cons, Prod.mk.injEq, List.not_mem_nil, or_false] at hm
  rcases hm with ⟨-, rfl⟩ | ⟨-, rfl⟩ | ⟨-, rfl⟩ | ⟨-, rfl⟩ | ⟨-, rfl⟩ | ⟨-, rfl⟩ | ⟨-, rfl⟩
  · cases h with
    | mk => exact ⟨rfl, nofun⟩
  · cases h with
    | mk => exact ⟨rfl, nofun⟩
  · cases h with
    | mk => exact ⟨rfl, nofun⟩
  · cases h with
    | mk => exact ⟨rfl, nofun⟩
  · cases h with
    | numeral => exact ⟨rfl, nofun⟩
    | range => trivial
  · cases h with
    | state => exact ⟨rfl, nofun⟩
    | name => trivial
  · cases h with
    | state => exact ⟨rfl, nofun⟩
    | name => trivial

theorem Concerns.report {report : Report} (h : b.Concerns f) (hr : f.report? = some report) :
    report.id = .ofText? b.id ∧ report.kind = .str b.kind := by
  cases f with
  | format e => exact h.elim
  | defect d => cases hr
  | rule e =>
    cases hr
    change Json.ofText? e.site.id = _ ∧ Json.str e.site.kind = _
    rw [h.1]
    exact ⟨rfl, rfl⟩

theorem Faulty.concerns (h : b.Faulty place f) : b.Concerns f := by
  cases h with
  | misplaced => cases place <;> exact ⟨rfl, nofun⟩
  | broken _ hb =>
    cases hb with
    | field => exact ⟨rfl, nofun⟩
    | check hw hc => exact concerns_of_check hw hc

theorem explains_of_check {wrong : Block ρ → Fault → Prop}
    (hw : Table.get? checks b.kind = some wrong) (hb : b.kind ≠ "controls_if") (h : wrong b f) :
    b.Explains f := by
  have hm := Table.mem_of_get? hw
  simp only [checks, List.mem_cons, Prod.mk.injEq, List.not_mem_nil, or_false] at hm
  rcases hm with ⟨-, rfl⟩ | ⟨-, rfl⟩ | ⟨-, rfl⟩ | ⟨-, rfl⟩ | ⟨hk, rfl⟩ | ⟨hk, rfl⟩ | ⟨hk, -⟩
  · cases h with
    | mk => exact .of_rule _
  · cases h with
    | mk => exact .of_rule _
  · cases h with
    | mk => exact .of_rule _
  · cases h with
    | mk => exact .of_rule _
  · cases h with
    | numeral => exact .of_rule _
    | range hn hl => exact .inr ⟨_, rfl, .number hk hn hl⟩
  · cases h with
    | state => exact .of_rule _
    | name hm hd hl => exact .inr ⟨_, rfl, .slot hk hm hd hl⟩
  · exact absurd hk hb

/-- What is wrong with a block is reported, or it is a flaw. Branches are counted before the names
of their sockets are looked at, so that a long name need not be what fails. -/
theorem Breaks.explains (h : b.Breaks f) (hb : b.kind ≠ "controls_if") : b.Explains f := by
  cases h with
  | field => exact .of_rule _
  | check hw hc => exact explains_of_check hw hb hc

end

end Block

namespace Tree

/-- Nothing is read behind a return. -/
def upToReturn : List Tree → List Tree
  | [] => []
  | t :: ts => if t.block.kind = Catalog.returnStateKind then [t] else t :: upToReturn ts

/-- The blocks of a stack that are read. Only the steps of a sequence end with a return. -/
def readStack (t : Tree) (socket : String) : List Tree :=
  if t.block.kind = "action_sequence" then upToReturn (stackedOption (t.block.head? socket))
  else stackedOption (t.block.head? socket)

end Tree

/-- A block in its place. -/
structure Position where
  place : Place
  tree : Tree

namespace Position

/-- What is read next from a position. A block without a rule is not looked into. -/
def reads (p : Position) : List Position :=
  if p.tree.block.kind ∈ p.place.kinds then
    p.tree.block.readValues.flatMap (fun socket =>
      (p.tree.block.value? socket).toList.map (⟨p.place.inner p.tree.block.site, ·⟩)) ++
    p.tree.block.readStacks.flatMap (fun e => (p.tree.readStack e.1).map (⟨e.2, ·⟩))
  else []

/-- What is read from a position on. -/
def Reaches (p q : Position) : Prop := Relation.ReflTransGen (fun a b => b ∈ a.reads) p q

def Faulty (p : Position) (f : Fault) : Prop := p.tree.block.Faulty p.place f

/-- A position that is read from here on has the fault. -/
def Fails (p : Position) (f : Fault) : Prop := ∃ q, p.Reaches q ∧ q.Faulty f

/-- Where a program is read from: its root, and the definitions beside it. -/
def starts (root : Tree) (beside : List Tree) : List Position :=
  ⟨.root, root⟩ :: beside.flatMap fun top =>
    (top.stacked.filter (·.block.kind ∈ Catalog.definitionKinds)).map (⟨.statement, ·⟩)

/-- The positions that are read in a program. -/
def Read (root : Tree) (beside : List Tree) (q : Position) : Prop :=
  ∃ p ∈ starts root beside, p.Reaches q

variable {p : Position} {f : Fault}

theorem fails_iff : p.Fails f ↔ p.Faulty f ∨ ∃ q ∈ p.reads, q.Fails f := by
  constructor
  · rintro ⟨q, hr, hq⟩
    rcases Relation.ReflTransGen.cases_head hr with rfl | ⟨s, hs, hr⟩
    · exact .inl hq
    · exact .inr ⟨s, hs, q, hr, hq⟩
  · rintro (hp | ⟨s, hs, q, hr, hq⟩)
    · exact ⟨p, .refl, hp⟩
    · exact ⟨q, .head hs hr, hq⟩

theorem exists_read_iff {root : Tree} {beside : List Tree} :
    (∃ q, Read root beside q ∧ q.Faulty f) ↔ ∃ p ∈ starts root beside, p.Fails f := by
  constructor
  · rintro ⟨q, ⟨p, hp, hr⟩, hq⟩
    exact ⟨p, hp, q, hr, hq⟩
  · rintro ⟨p, hp, q, hr, hq⟩
    exact ⟨q, ⟨p, hp, hr⟩, hq⟩

theorem exists_starts_iff {root : Tree} {beside : List Tree} :
    (∃ p ∈ starts root beside, p.Fails f) ↔
      (⟨.root, root⟩ : Position).Fails f ∨ ∃ top ∈ beside, ∃ u ∈ top.stacked,
        u.block.kind ∈ Catalog.definitionKinds ∧ (⟨.statement, u⟩ : Position).Fails f := by
  rw [starts, List.exists_mem_cons_iff]
  apply or_congr_right
  constructor
  · rintro ⟨p, hp, hf⟩
    obtain ⟨top, ht, hp⟩ := List.mem_flatMap.1 hp
    obtain ⟨u, hu, rfl⟩ := List.mem_map.1 hp
    obtain ⟨hu, hk⟩ := List.mem_filter.1 hu
    exact ⟨top, ht, u, hu, of_decide_eq_true hk, hf⟩
  · rintro ⟨top, ht, u, hu, hk, hf⟩
    have hm : u ∈ top.stacked.filter (·.block.kind ∈ Catalog.definitionKinds) :=
      List.mem_filter.2 ⟨hu, decide_eq_true hk⟩
    exact ⟨_, List.mem_flatMap.2 ⟨top, ht, List.mem_map_of_mem hm⟩, hf⟩

/-- The block in a value socket fails in a place. -/
def ValueFails (t : Tree) (place : Place) (socket : String) (f : Fault) : Prop :=
  ∃ u, t.block.value? socket = some u ∧ (⟨place, u⟩ : Position).Fails f

/-- A block of a stack fails in a place, among those that are read. -/
def StackFails (t : Tree) (place : Place) (socket : String) (f : Fault) : Prop :=
  ∃ u ∈ t.readStack socket, (⟨place, u⟩ : Position).Fails f

theorem fails_of_misplaced (h : p.tree.block.kind ∉ p.place.kinds) :
    p.Fails f ↔ f = .rule (p.place.misfit p.tree.block.site) := by
  rw [fails_iff, reads, if_neg h]
  constructor
  · rintro (hf | ⟨q, hq, -⟩)
    · cases hf with
      | misplaced => rfl
      | broken hk => exact absurd hk h
    · cases hq
  · rintro rfl
    exact .inl (.misplaced h)

theorem fails_of_placed (h : p.tree.block.kind ∈ p.place.kinds) :
    p.Fails f ↔ p.tree.block.Breaks f ∨
      (∃ socket ∈ p.tree.block.readValues,
        ValueFails p.tree (p.place.inner p.tree.block.site) socket f) ∨
      ∃ e ∈ p.tree.block.readStacks, StackFails p.tree e.2 e.1 f := by
  have hb : p.Faulty f ↔ p.tree.block.Breaks f := by
    constructor
    · intro hf
      cases hf with
      | misplaced hk => exact absurd h hk
      | broken _ hb => exact hb
    · exact .broken h
  rw [fails_iff, hb, reads, if_pos h]
  apply or_congr_right
  simp only [List.mem_append, or_and_right, exists_or, List.mem_flatMap, List.mem_map,
    Option.mem_toList, ValueFails, StackFails]
  constructor
  · rintro (⟨_, ⟨socket, hs, u, hu, rfl⟩, hf⟩ | ⟨_, ⟨e, he, u, hu, rfl⟩, hf⟩)
    · exact .inl ⟨socket, hs, u, hu, hf⟩
    · exact .inr ⟨e, he, u, hu, hf⟩
  · rintro (⟨socket, hs, u, hu, hf⟩ | ⟨e, he, u, hu, hf⟩)
    · exact .inl ⟨_, ⟨socket, hs, u, hu, rfl⟩, hf⟩
    · exact .inr ⟨_, ⟨e, he, u, hu, rfl⟩, hf⟩

end Position

end BlockMachine

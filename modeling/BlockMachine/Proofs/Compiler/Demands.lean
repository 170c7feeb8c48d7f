import BlockMachine.Proofs.Compiler.Counts
import BlockMachine.Proofs.Compiler.Places

namespace BlockMachine

variable {ρ : Type}

namespace Part

def socket? : Part → Option String
  | .slot socket _ _ => some socket
  | _ => none

def isFail : Part → Bool
  | .fail _ => true
  | _ => false

end Part

/-- The sockets that some parts have slots for. -/
def slots (parts : List Part) : List String := parts.filterMap Part.socket?

def isFaultless (parts : List Part) : Bool := !parts.any Part.isFail

theorem fail_not_mem {parts : List Part} {f : Fault} (h : isFaultless parts = true) :
    .fail f ∉ parts := by
  intro hm
  rw [isFaultless, List.any_eq_true.2 ⟨.fail f, hm, rfl⟩] at h
  cases h

namespace Block

variable {b : Block ρ} {f : Fault}

theorem fieldText_ok {name text : String} (h : b.fieldText name = .ok text) :
    b.field? name ≠ none := by
  intro hn
  rw [fieldText, field, hn] at h
  cases h

theorem fieldText_missing {name : String} (h : b.fieldText name = .error f) :
    b.field? name = none ∧ f = b.missing name := by
  rw [fieldText, map_eq_error, field] at h
  split at h
  · cases h
  · rename_i hn
    cases h
    exact ⟨hn, rfl⟩

theorem breaks_of_unchecked (hk : b.kind ∉ Table.keys (@checks ρ)) :
    b.Breaks f ↔ ∃ name ∈ b.required, b.field? name = none ∧ f = b.missing name := by
  constructor
  · intro h
    cases h with
    | field hm hn => exact ⟨_, hm, hn, rfl⟩
    | check hw => exact absurd hw (by rw [Table.get?_eq_none_iff.2 hk]; nofun)
  · rintro ⟨name, hm, hn, rfl⟩
    exact .field hm hn

theorem breaks_of_checked {kind : String} {wrong : Block ρ → Fault → Prop} (hk : b.kind = kind)
    (hr : b.required = []) (hw : Table.get? checks kind = some wrong) : b.Breaks f ↔ wrong b f := by
  subst hk
  constructor
  · intro h
    cases h with
    | field hm =>
      rw [hr] at hm
      cases hm
    | check hw' hf =>
      rw [hw] at hw'
      cases hw'
      exact hf
  · exact .check hw

theorem breaks_of_fieldText {name : String} (hr : b.required = [name])
    (h : b.fieldText name = .error f) : b.Breaks f := by
  obtain ⟨hn, rfl⟩ := fieldText_missing h
  exact .field (hr ▸ List.mem_singleton_self name) hn

theorem not_breaks_of_fieldText {name text : String}
    (hk : b.kind ∉ Table.keys (@checks ρ)) (hr : b.required = [name])
    (h : b.fieldText name = .ok text) : ¬ b.Breaks f := by
  rw [breaks_of_unchecked hk, hr]
  rintro ⟨other, hm, hn, -⟩
  cases List.mem_singleton.1 hm
  exact fieldText_ok h hn

section

variable {key : String} {names : List String} {digits? : String → Option (List Nat)}

theorem invalidCount_of_count (h : b.count key = .error f) :
    b.InvalidCount key names digits? f := by
  obtain ⟨count, hs, hn, rfl⟩ := count_eq_error h
  exact .state hs hn

theorem invalidCount_of_numbers
    (h : (names.filterMap digits?).mapM socketNumber = .error f) :
    b.InvalidCount key names digits? f := by
  obtain ⟨rfl, hd⟩ := mapM_socketNumber_eq_error.1 h
  obtain ⟨name, hn, digits, hd, hl⟩ := exists_mem_filterMap.1 hd
  exact .name hn hd hl

theorem not_invalidCount {n : Nat} {numbers : List Nat} (hc : b.count key = .ok n)
    (hn : (names.filterMap digits?).mapM socketNumber = .ok numbers) :
    ¬ b.InvalidCount key names digits? f := by
  intro h
  cases h with
  | state hs hi =>
    rw [Block.count, hs] at hc
    split at hc
    · cases ‹some _ = none›
    · rename_i m hm
      cases hm
      split at hc
      · cases hc
      · exact hi m.toNat (by rw [Int.toNat_of_nonneg (by omega)])
    · cases hc
  | name hm hd hl =>
    have he := mapM_socketNumber_eq_error.2 ⟨rfl, exists_mem_filterMap.2 ⟨_, hm, _, hd, hl⟩⟩
    rw [hn] at he
    cases he

end

end Block

/-- A kind without a check of its own: the fields that it cannot do without, the value sockets that
it looks into and the stacks that it goes through. -/
structure Plain (kind : String) (fields sockets : List String) (bodies : List (String × Place)) :
    Prop where
  unchecked : kind ∉ Table.keys (@Block.checks Unit)
  fields : (Table.get? requiredFields kind).getD [] = fields
  sockets : (Table.get? valueSockets kind).getD [] = sockets
  bodies : (Table.get? stackSockets kind).getD [] = bodies

instance (kind : String) (fields sockets : List String) (bodies : List (String × Place)) :
    Decidable (Plain kind fields sockets bodies) :=
  decidable_of_iff (_ ∧ _ ∧ _ ∧ _)
    ⟨fun ⟨hu, hf, hv, hs⟩ => ⟨hu, hf, hv, hs⟩, fun ⟨hu, hf, hv, hs⟩ => ⟨hu, hf, hv, hs⟩⟩

namespace Plain

variable {fields sockets : List String} {bodies : List (String × Place)}

theorem ne {kind other : String} (h : Plain kind fields sockets bodies)
    (ho : other ∈ Table.keys (@Block.checks Unit)) : kind ≠ other := by
  rintro rfl
  exact h.unchecked ho

theorem ne_sequence {kind : String} (h : Plain kind fields sockets bodies)
    (hb : bodies ≠ [("DO", .statement)]) : kind ≠ "action_sequence" := by
  rintro rfl
  exact hb h.bodies.symm

theorem root {kind : String} (hk : kind = Catalog.rootKind) :
    Plain kind ["INITIAL_STATE"] []
      [("STATES", .state), ("GLOBAL_TRANSITIONS", .globalTransition)] := by
  rw [hk]
  decide

theorem state {kind : String} (hk : kind = Catalog.stateKind) :
    Plain kind ["STATE_NAME"] [] [("ON_ENTER", .statement), ("ON_EXECUTE", .statement),
      ("ON_EXIT", .statement), ("TRANSITIONS", .localTransition),
      ("INTERRUPTIBLE_BY", .interruption)] := by
  rw [hk]
  decide

theorem localTransition {kind : String} (hk : kind = Catalog.localTransitionKind) :
    Plain kind ["TARGET"] ["CONDITION"] [] := by
  rw [hk]
  decide

theorem globalTransition {kind : String} (hk : kind ∈ Place.globalTransition.kinds) :
    Plain kind ["TARGET"] ["CONDITION"] [] := by
  rcases List.mem_cons.1 hk with hk | hk
  · rw [hk]
    decide
  · rw [List.mem_singleton.1 hk]
    decide

theorem stateReference {kind : String} (hk : kind = Catalog.stateReferenceKind) :
    Plain kind ["STATE_NAME"] [] [] := by
  rw [hk]
  decide

theorem stateReferenceStatement {kind : String}
    (hk : kind = Catalog.stateReferenceStatementKind) : Plain kind [] ["STATE"] [] := by
  rw [hk]
  decide

theorem text {kind : String} (hk : kind = Catalog.textKind) : Plain kind [] [] [] := by
  rw [hk]
  decide

theorem readValues {b : Block ρ} (h : Plain b.kind fields sockets bodies) :
    b.readValues = sockets := by
  rw [Block.readValues, if_neg (h.ne (by decide)), if_neg (h.ne (by decide)), h.sockets]

theorem readStacks {b : Block ρ} (h : Plain b.kind fields sockets bodies) :
    b.readStacks = bodies := by
  rw [Block.readStacks, if_neg (h.ne (by decide)), h.bodies]

theorem fails_iff {place : Place} {t : Tree} {f : Fault}
    (h : Plain t.block.kind fields sockets bodies) (hm : t.block.kind ∈ place.kinds) :
    (Position.mk place t).Fails f ↔
      (∃ name ∈ fields, t.block.field? name = none ∧ f = t.block.missing name) ∨
      (∃ socket ∈ sockets, Position.ValueFails t (place.inner t.block.site) socket f) ∨
      ∃ e ∈ bodies, Position.StackFails t e.2 e.1 f := by
  rw [Position.fails_of_placed hm, Block.breaks_of_unchecked h.unchecked, Block.required, h.fields,
    h.readValues, h.readStacks]

end Plain

namespace ValueRule

/-- The fields that a rule cannot do without. -/
def required : ValueRule → List String
  | .gameConstant => ["CONSTANT"]
  | .property => ["PROPERTY"]
  | .memory => ["KEY"]
  | .localVariable => ["VAR_NAME"]
  | .stateName => ["STATE_NAME"]
  | .constant | .functionCall => ["NAME"]
  | _ => []

/-- The kind of a rule that checks more than fields. -/
def checkedKind? : ValueRule → Option String
  | .number => some "math_number"
  | .comparison => some "logic_compare"
  | .connective => some "logic_operation"
  | .arithmetic => some "math_arithmetic"
  | .list => some "lists_create_with"
  | .coordinate => some "position_get_coordinate"
  | _ => none

/-- The sockets that a rule has slots for; those of a list are numbered. -/
def sockets : ValueRule → List String
  | .inline parts _ => slots parts
  | .comparison | .connective | .arithmetic => ["A", "B"]
  | .coordinate => ["POSITION"]
  | .property => ["OBJECT"]
  | .functionCall => ["ARGS"]
  | _ => []

def isInlineFaultless : ValueRule → Bool
  | .inline parts _ => isFaultless parts
  | _ => true

/-- The tables of kinds agree with a rule. -/
structure Suits (rule : ValueRule) (kind : String) : Prop where
  required : (Table.get? requiredFields kind).getD [] = rule.required
  sockets : (Table.get? valueSockets kind).getD [] = rule.sockets
  stackless : (Table.get? stackSockets kind).getD [] = []
  checked : ∀ k ∈ rule.checkedKind?, kind = k
  unchecked : rule.checkedKind? = none → kind ∉ Table.keys (@Block.checks Unit)
  numbered : kind = "lists_create_with" → rule.checkedKind? = some "lists_create_with"
  branchless : kind ≠ "controls_if"
  faultless : rule.isInlineFaultless = true

instance (rule : ValueRule) (kind : String) : Decidable (rule.Suits kind) :=
  decidable_of_iff (_ ∧ _ ∧ _ ∧ _ ∧ _ ∧ _ ∧ _ ∧ _)
    ⟨fun ⟨h₁, h₂, h₃, h₄, h₅, h₆, h₇, h₈⟩ => ⟨h₁, h₂, h₃, h₄, h₅, h₆, h₇, h₈⟩,
      fun ⟨h₁, h₂, h₃, h₄, h₅, h₆, h₇, h₈⟩ => ⟨h₁, h₂, h₃, h₄, h₅, h₆, h₇, h₈⟩⟩

theorem suits_table : ∀ e ∈ table, e.2.Suits e.1 := by decide +kernel

theorem suits_ofKind? {kind : String} {rule : ValueRule} (h : ofKind? kind = some rule) :
    rule.Suits kind :=
  suits_table (kind, rule) (Table.mem_of_get? h)

section

variable {b : Block ρ} {rule : ValueRule} {f : Fault}

theorem Suits.readValues (h : rule.Suits b.kind)
    (hl : rule.checkedKind? ≠ some "lists_create_with") : b.readValues = rule.sockets := by
  rw [Block.readValues, if_neg fun hk => hl (h.numbered hk), if_neg h.branchless, h.sockets]

theorem invalidNumber_iff : b.InvalidNumber f ↔ numberOf b = .error f := by
  constructor
  · intro h
    cases h with
    | numeral ht hn =>
      rw [numberOf, ht]
      dsimp only
      rw [hn]
    | range hn hl => exact numberOf_of_large hn hl
  · intro h
    rw [numberOf] at h
    split at h
    · cases h
    · rename_i n hn
      cases hx : Binary64.ofInt? n with
      | none =>
        rw [hx] at h
        cases h
        exact .range hn ((Binary64.ofInt?_eq_none_iff n).1 hx)
      | some x =>
        rw [hx] at h
        cases h
    · cases h
    · cases h
    · rename_i text ht
      split at h
      · cases h
      · rename_i hn
        cases h
        exact .numeral ht hn

theorem invalidCount_of_slotCount (h : slotCount b = .error f) :
    b.InvalidCount "itemCount" (Table.keys b.values) (Catalog.socketDigits? "ADD") f := by
  rcases bind_eq_error.1 h with h | ⟨_, -, h⟩
  · exact Block.invalidCount_of_numbers h
  · rcases bind_eq_error.1 h with h | ⟨_, -, h⟩
    · exact Block.invalidCount_of_count h
    · cases h

theorem template_breaks (hk : ofKind? b.kind = some rule) (h : rule.template b = .error f) :
    b.Breaks f := by
  have hs := suits_ofKind? hk
  have hc {kind : String} {wrong : Block ρ → Fault → Prop} (hr : rule.checkedKind? = some kind)
      (hw : Table.get? Block.checks kind = some wrong) (hf : wrong b f) : b.Breaks f := by
    cases hs.checked kind hr
    exact .check hw hf
  cases rule with
  | inline | boolean | text | functionCall => cases h
  | number => exact hc rfl rfl (invalidNumber_iff.2 (map_eq_error.1 h))
  | list => exact hc rfl rfl (invalidCount_of_slotCount (map_eq_error.1 h))
  | comparison =>
    rw [template] at h
    split at h
    · cases h
    · rename_i hn
      cases h
      exact hc rfl rfl (.mk rfl (Table.get?_eq_none_iff.1 hn))
  | connective =>
    rw [template] at h
    split at h
    · cases h
    · rename_i hn
      cases h
      exact hc rfl rfl (.mk rfl (Table.get?_eq_none_iff.1 hn))
  | arithmetic =>
    rw [template] at h
    split at h
    · cases h
    · rename_i hp
      split at h
      · cases h
      · rename_i hn
        cases h
        refine hc rfl rfl (.mk rfl fun hm => ?_)
        rcases List.mem_append.1 (show _ ∈ Table.keys arithmetics ++ ["POWER"] from hm) with hm | hm
        · exact Table.get?_eq_none_iff.1 hn hm
        · exact hp (List.mem_singleton.1 hm)
  | coordinate =>
    rw [template, coordinateTemplate] at h
    split at h
    · cases h
    · rename_i hn
      cases h
      refine hc rfl rfl (.mk rfl ?_)
      simpa using hn
  | gameConstant | property | memory | localVariable | stateName | constant =>
    exact Block.breaks_of_fieldText hs.required (map_eq_error.1 h)

theorem slots_listTemplate (count : Nat) :
    slots (listTemplate count).parts =
      (List.range count).map fun i : Nat => "ADD" ++ decimalText i := by
  have hs (is : List Nat) : slots ((is.map listSlot).intersperse (.text ", ")) =
      is.map fun i : Nat => "ADD" ++ decimalText i := by
    induction is with
    | nil => rfl
    | cons i is ih =>
      cases is with
      | nil => rfl
      | cons j is => exact congrArg (List.cons _) ih
  rw [listTemplate, slots, List.filterMap_append]
  exact (List.append_nil _).trans (hs _)

theorem isFaultless_listSlots (is : List Nat) :
    isFaultless ((is.map listSlot).intersperse (.text ", ")) = true := by
  induction is with
  | nil => rfl
  | cons i is ih =>
    cases is with
    | nil => rfl
    | cons j is => exact ih

theorem isFaultless_listTemplate (count : Nat) : isFaultless (listTemplate count).parts = true := by
  have hs := isFaultless_listSlots (List.range count)
  rw [isFaultless, Bool.not_eq_true'] at hs
  rw [isFaultless, listTemplate, List.any_append, List.any_cons, hs]
  rfl

end

end ValueRule

/-- A template has slots for the sockets that are read, and stops where the block breaks its
rule. -/
structure Template.Renders (t : Template) (b : Block ρ) : Prop where
  sockets : slots t.parts = b.readValues
  faults {f : Fault} : b.Breaks f ↔ .fail f ∈ t.parts

namespace ValueRule

variable {b : Block ρ} {rule : ValueRule} {t : Template}

theorem not_breaks_of_checked {f : Fault} (hs : rule.Suits b.kind) {kind : String}
    (hc : rule.checkedKind? = some kind) (h : rule.template b = .ok t) : ¬ b.Breaks f := by
  have hb {wrong : Block ρ → Fault → Prop} (hw : Table.get? Block.checks kind = some wrong)
      (hr : rule.required = []) : b.Breaks f ↔ wrong b f :=
    Block.breaks_of_checked (hs.checked kind hc) (hs.required.trans hr) hw
  cases rule with
  | inline | boolean | text | functionCall | gameConstant | property | memory | localVariable
  | stateName | constant => cases hc
  | number =>
    cases hc
    rw [hb rfl rfl, invalidNumber_iff]
    obtain ⟨x, hx, -⟩ := map_eq_ok.1 h
    rw [hx]
    nofun
  | list =>
    cases hc
    rw [hb rfl rfl]
    obtain ⟨n, hn, -⟩ := map_eq_ok.1 h
    obtain ⟨numbers, count, hn, hc, -⟩ := slotCount_eq_ok hn
    exact Block.not_invalidCount hc hn
  | comparison =>
    cases hc
    rw [hb rfl rfl]
    rintro ⟨rfl, hn⟩
    rw [template, Table.get?_eq_none_iff.2 hn] at h
    cases h
  | connective =>
    cases hc
    rw [hb rfl rfl]
    rintro ⟨rfl, hn⟩
    rw [template, Table.get?_eq_none_iff.2 hn] at h
    cases h
  | arithmetic =>
    cases hc
    rw [hb rfl rfl]
    rintro ⟨rfl, hn⟩
    have hp : b.fieldTextD "OP" "ADD" ≠ "POWER" := by
      intro he
      rw [he] at hn
      exact hn (by decide)
    have ha : b.fieldTextD "OP" "ADD" ∉ Table.keys arithmetics := fun hm =>
      hn (List.mem_append_left ["POWER"] hm)
    rw [template, if_neg hp, Table.get?_eq_none_iff.2 ha] at h
    cases h
  | coordinate =>
    cases hc
    rw [hb rfl rfl]
    rintro ⟨rfl, hn⟩
    rw [template, coordinateTemplate, if_neg (by simpa using hn)] at h
    cases h

theorem renders_of_not_breaks (hs : slots t.parts = b.readValues)
    (hb : ∀ f, ¬ b.Breaks f) (hp : isFaultless t.parts = true) : t.Renders b :=
  ⟨hs, fun {f} => iff_of_false (hb f) (fail_not_mem hp)⟩

/-- The arguments of a call are read even if its name is missing. -/
theorem renders_callTemplate (hk : b.kind ∉ Table.keys (@Block.checks ρ))
    (hr : b.required = ["NAME"]) (hs : b.readValues = ["ARGS"]) : (callTemplate b).Renders b := by
  rw [callTemplate]
  cases hn : b.fieldText "NAME" with
  | ok name =>
    exact renders_of_not_breaks hs.symm (fun f => Block.not_breaks_of_fieldText hk hr hn) rfl
  | error e =>
    refine ⟨hs.symm, fun {f} => ⟨fun hf => ?_, fun hf => ?_⟩⟩
    · obtain ⟨name, hm, -, rfl⟩ := (Block.breaks_of_unchecked hk).1 hf
      rw [hr] at hm
      cases List.mem_singleton.1 hm
      rw [(Block.fieldText_missing hn).2]
      exact List.mem_cons_of_mem _ (List.mem_singleton_self _)
    · have he : f = e := by simpa using hf
      exact he ▸ Block.breaks_of_fieldText hr hn

theorem readValues_of_list {n : Nat} (hk : b.kind = "lists_create_with")
    (hn : slotCount b = .ok n) :
    b.readValues = (List.range n).map fun i : Nat => "ADD" ++ decimalText i := by
  rw [Block.readValues, if_pos hk, hn]

theorem parts_of_checked (hs : rule.Suits b.kind) {kind : String}
    (hc : rule.checkedKind? = some kind) (h : rule.template b = .ok t) :
    slots t.parts = b.readValues ∧ isFaultless t.parts = true := by
  have hv (hl : rule.checkedKind? ≠ some "lists_create_with") := hs.readValues hl
  cases rule with
  | inline | boolean | text | functionCall | gameConstant | property | memory | localVariable
  | stateName | constant => cases hc
  | number =>
    obtain ⟨x, -, rfl⟩ := map_eq_ok.1 h
    exact ⟨(hv (by decide)).symm, rfl⟩
  | list =>
    obtain ⟨n, hn, rfl⟩ := map_eq_ok.1 h
    rw [readValues_of_list (hs.checked _ rfl) hn]
    exact ⟨slots_listTemplate n, isFaultless_listTemplate n⟩
  | comparison | connective =>
    rw [hv (by decide)]
    rw [template] at h
    split at h
    · cases h
      exact ⟨rfl, rfl⟩
    · cases h
  | arithmetic =>
    rw [hv (by decide)]
    rw [template] at h
    split at h
    · cases h
      exact ⟨rfl, rfl⟩
    · split at h
      · cases h
        exact ⟨rfl, rfl⟩
      · cases h
  | coordinate =>
    rw [hv (by decide)]
    rw [template, coordinateTemplate] at h
    split at h
    · cases h
      exact ⟨rfl, rfl⟩
    · cases h

theorem template_renders (hk : ofKind? b.kind = some rule) (h : rule.template b = .ok t) :
    t.Renders b := by
  have hs := suits_ofKind? hk
  cases hc : rule.checkedKind? with
  | some kind =>
    obtain ⟨hv, hp⟩ := parts_of_checked hs hc h
    exact renders_of_not_breaks hv (fun f => not_breaks_of_checked hs hc h) hp
  | none =>
    have hu := hs.unchecked hc
    have hv := hs.readValues (by rw [hc]; nofun)
    have hf {name text : String} (hr : rule.required = [name]) (hn : b.fieldText name = .ok text)
        (f : Fault) : ¬ b.Breaks f :=
      Block.not_breaks_of_fieldText hu (hs.required.trans hr) hn
    have hn (hr : rule.required = []) (f : Fault) : ¬ b.Breaks f := by
      rw [Block.breaks_of_unchecked hu, Block.required, hs.required, hr]
      nofun
    cases rule with
    | number | list | comparison | connective | arithmetic | coordinate => cases hc
    | inline parts order =>
      cases h
      exact renders_of_not_breaks hv.symm (hn rfl) hs.faultless
    | boolean | text =>
      cases h
      exact renders_of_not_breaks hv.symm (hn rfl) rfl
    | functionCall =>
      cases h
      exact renders_callTemplate hu hs.required hv
    | gameConstant | property | memory | localVariable | stateName | constant =>
      obtain ⟨text, ht, rfl⟩ := map_eq_ok.1 h
      exact renders_of_not_breaks hv.symm (hf rfl ht) rfl

end ValueRule

namespace StatementRule

@[simp] def required : StatementRule → List String
  | .setMemory => ["KEY"]
  | .declareVariable | .setVariable => ["VAR_NAME"]
  | .returnState => ["STATE_NAME"]
  | .defineConstant | .defineFunction => ["NAME"]
  | .transition => ["TARGET"]
  | _ => []

/-- The value sockets that a rule reads; those of branches are numbered. -/
@[simp] def sockets : StatementRule → List String
  | .inline parts => slots parts
  | .setMemory | .setVariable | .defineConstant => ["VALUE"]
  | .declareVariable => ["INITIAL_VALUE"]
  | .transition => ["CONDITION"]
  | _ => []

/-- The stacks that a rule goes through; those of branches are numbered. -/
@[simp] def bodies : StatementRule → List (String × Place)
  | .actionSequence => [("DO", .statement)]
  | .scope => [("VARIABLES", .statement), ("BODY", .statement)]
  | _ => []

/-- The only kind of a rule that is not written from a text with sockets. -/
def soleKind? : StatementRule → Option String
  | .inline _ => none
  | .actionSequence => some "action_sequence"
  | .setMemory => some "memory_set"
  | .branches => some "controls_if"
  | .scope => some "local_scope"
  | .declareVariable => some "local_declare_variable"
  | .setVariable => some "local_set_variable"
  | .returnState => some "fsm_return_state"
  | .defineConstant => some "custom_constant_define"
  | .defineFunction => some "custom_function_define"
  | .transition => some "fsm_transition"

def isInlineFaultless : StatementRule → Bool
  | .inline parts => isFaultless parts
  | _ => true

/-- The tables of kinds agree with a rule. -/
structure Suits (rule : StatementRule) (kind : String) : Prop where
  plain : rule.soleKind? ≠ some "controls_if" → Plain kind rule.required rule.sockets rule.bodies
  sole : ∀ k ∈ rule.soleKind?, kind = k
  faultless : rule.isInlineFaultless = true

instance (rule : StatementRule) (kind : String) : Decidable (rule.Suits kind) :=
  decidable_of_iff (_ ∧ _ ∧ _) ⟨fun ⟨hp, hk, hf⟩ => ⟨hp, hk, hf⟩, fun ⟨hp, hk, hf⟩ => ⟨hp, hk, hf⟩⟩

theorem suits_table : ∀ e ∈ table, e.2.Suits e.1 := by decide +kernel

theorem suits_ofKind? {kind : String} {rule : StatementRule} (h : ofKind? kind = some rule) :
    rule.Suits kind :=
  suits_table (kind, rule) (Table.mem_of_get? h)

theorem kind_mem {kind : String} {rule : StatementRule} (h : ofKind? kind = some rule) :
    kind ∈ Place.statement.kinds :=
  List.mem_map_of_mem (Table.mem_of_get? h)

variable {b : Block ρ} {f : Fault}

theorem invalidCount_of_branchIndices (h : branchIndices b = .error f) :
    b.InvalidCount "elseIfCount" b.sockets branchDigits? f := by
  rcases bind_eq_error.1 h with h | ⟨_, -, h⟩
  · exact Block.invalidCount_of_count h
  · rcases bind_eq_error.1 h with h | ⟨_, -, h⟩
    · exact Block.invalidCount_of_numbers h
    · cases h

theorem not_invalidCount {is : List Nat} (h : branchIndices b = .ok is) :
    ¬ b.InvalidCount "elseIfCount" b.sockets branchDigits? f := by
  obtain ⟨count, numbers, hc, hn, -⟩ := branchIndices_eq_ok h
  exact Block.not_invalidCount hc hn

theorem breaks_of_branches (hk : b.kind = "controls_if") :
    b.Breaks f ↔ b.InvalidCount "elseIfCount" b.sockets branchDigits? f := by
  have hr : b.required = [] := by
    rw [Block.required, hk]
    rfl
  exact Block.breaks_of_checked hk hr rfl

end StatementRule

end BlockMachine
